import TestScribe.CommandLine
import TestScribe.Json.Printer
import TestScribe.Main
import TestScribe.Proofs.Code.Assembly
import TestScribe.Proofs.Code.Conditions
import TestScribe.Proofs.Code.Marking
import TestScribe.Proofs.Code.ReachedGoals
import TestScribe.Proofs.Code.Supplied
import TestScribe.Proofs.Code.Variables
import TestScribe.Proofs.Code.Verifications
import TestScribe.Proofs.Code.ZeroArguments
import TestScribe.Proofs.CommandLine.Endings
import TestScribe.Proofs.CommandLine.Mistakes
import TestScribe.Proofs.Document.Fields
import TestScribe.Proofs.Document.Respelling
import TestScribe.Proofs.Document.RoundTrip
import TestScribe.Proofs.Marking.Search
import TestScribe.Proofs.Model.Places
import TestScribe.Proofs.Model.Resolution
import TestScribe.Proofs.Model.Tiers
import TestScribe.Proofs.Model.Validation
import TestScribe.Proofs.Model.Visible
import TestScribe.Proofs.Predicate.Grammar
import TestScribe.Proofs.Predicate.Instantiation
import TestScribe.Proofs.Predicate.Lockstep
import TestScribe.Proofs.Predicate.Mismatch
import TestScribe.Proofs.Predicate.RoundTrip
import TestScribe.Proofs.Run.Coverage
import TestScribe.Proofs.Run.Filling
import TestScribe.Proofs.Run.Hidden
import TestScribe.Proofs.Run.Independence
import TestScribe.Proofs.Run.Renumbering
import TestScribe.Proofs.Run.Saving
import TestScribe.Proofs.Run.Silence
import TestScribe.Proofs.Run.Tags
import TestScribe.Proofs.Session.Cancelling
import TestScribe.Proofs.Suite.Naming
import TestScribe.Proofs.Suite.Placing
import TestScribe.Proofs.Text.Composition
import TestScribe.Proofs.Text.Decimal
import TestScribe.Proofs.Tree.BreadthFirst
import TestScribe.Proofs.Tree.Building
import TestScribe.Proofs.Tree.DepthFirst
import TestScribe.Proofs.Tree.Positions
import TestScribe.Session
import TestScribe.Storage.Disk

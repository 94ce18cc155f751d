import TestScribe.Document.Bundle
import TestScribe.Generator

/-!
# The command line

`Request.parse` reads the arguments, from left to right; the last value of a flag counts.
`commandLine` carries the request out and says how the program ends.
-/

namespace TestScribe

inductive UsageError
  | unknownArgument (argument : String)
  | missingValue (flag : String)
  | unknownLanguage (text : String)
deriving DecidableEq, Repr

def UsageError.message : UsageError → String
  | .unknownArgument argument => "unknown argument '" ++ argument ++ "'"
  | .missingValue flag => flag ++ " needs a value"
  | .unknownLanguage text => unknownLanguageMessage text

def usage : String :=
  "Usage: codegen-runner --model <FILE> [OPTIONS]\n\nOptions:\n" ++
    "  --model <FILE>      JSON bundle with \"model\", \"tree\" and optional \"options\"\n" ++
    "  --options <FILE>    JSON generation options (overrides the bundle's)\n" ++
    "  --output <PATH>     Suite file path; its stem names the suite " ++
    "(default: generated/TestSuite)\n" ++
    "  --language <LANG>   Target language\n" ++
    "  --separate          One file per test plus an index file\n" ++
    "  --eager             Compute every node's code before rendering\n" ++
    "  --verbose           Debug logging\n" ++
    "  --help              Print this help"

structure Request where
  model : Option Path
  options : Option Path
  output : Path
  language : Option Language
  separate : Bool
  eager : Bool
  verbose : Bool
  help : Bool
deriving DecidableEq, Repr

namespace Request

def empty : Request :=
  ⟨none, none, "generated/TestSuite", none, false, false, false, false⟩

def withSwitch (r : Request) : String → Except UsageError Request
  | "--separate" => .ok { r with separate := true }
  | "--eager" => .ok { r with eager := true }
  | "--verbose" => .ok { r with verbose := true }
  | "--help" | "-h" => .ok { r with help := true }
  | other => .error (.unknownArgument other)

/-- The flags that take the next argument as their value, whatever it is. -/
def takesValue (flag : String) : Bool :=
  flag == "--model" || flag == "--options" || flag == "--output" || flag == "--language"

def withValue (r : Request) (flag value : String) : Except UsageError Request :=
  match flag with
  | "--model" => .ok { r with model := some value }
  | "--options" => .ok { r with options := some value }
  | "--output" => .ok { r with output := value }
  | _ =>
    match Language.parse value with
    | some l => .ok { r with language := some l }
    | none => .error (.unknownLanguage value)

def parseFrom (r : Request) : List String → Except UsageError Request
  | [] => .ok r
  | [arg] =>
    if takesValue arg then .error (.missingValue arg)
    else r.withSwitch arg
  | arg :: value :: rest =>
    if takesValue arg then
      match r.withValue arg value with
      | .ok r => r.parseFrom rest
      | .error e => .error e
    else
      match r.withSwitch arg with
      | .ok r => r.parseFrom (value :: rest)
      | .error e => .error e

def parse (args : List String) : Except UsageError Request :=
  empty.parseFrom args

def override (r : Request) (o : Options) : Options :=
  { o with
    language := r.language.getD o.language
    separateTestFiles := o.separateTestFiles || r.separate
    eager := o.eager || r.eager }

end Request

inductive RequestError
  | noModel
  | unreadable (path : Path)
  | bundle (path : Path) (cause : BundleError)
  | options (path : Path)
  | run (cause : RunError)
deriving DecidableEq, Repr

def RequestError.message : RequestError → String
  | .noModel => "--model is required"
  | .unreadable path => "cannot read " ++ path
  | .bundle path cause => path ++ ": " ++ cause.message
  | .options path => path
  | .run cause => cause.message

/-- How the program ends: its exit code, its output, and the message of an error. -/
structure Ending where
  exitCode : Nat
  output : String
  message : String
deriving DecidableEq, Repr

section

variable {m : Type → Type} [Monad m] [Storage m]

/-- The options of the options file, or else those of the bundle, or else the defaults. -/
def Request.readOptions (r : Request) (bundled : Option Options) :
    m (Except RequestError Options) := do
  match r.options with
  | none => return .ok (bundled.getD .default)
  | some path =>
    match ← Storage.readText path with
    | none => return .error (.unreadable path)
    | some text =>
      match (Json.parseDocument text).bind Options.decode with
      | none => return .error (.options path)
      | some o => return .ok o

def Request.carryOut (r : Request) : m (Except RequestError (List Path)) := do
  match r.model with
  | none => return .error .noModel
  | some path =>
    match ← Storage.readText path with
    | none => return .error (.unreadable path)
    | some text =>
      match (Bundle.ofText text).bind Bundle.build with
      | .error e => return .error (.bundle path e)
      | .ok parts =>
        match ← r.readOptions parts.options with
        | .error e => return .error e
        | .ok o =>
          let generator : Generator := ⟨parts.model, r.override o⟩
          let report ← generator.save parts.tree .quiet r.output
          return report.result.mapError .run

def commandLine (args : List String) : m Ending := do
  match Request.parse args with
  | .error e => return ⟨2, "", e.message ++ "\n\n" ++ usage ++ "\n"⟩
  | .ok r =>
    if r.help then return ⟨0, usage ++ "\n", ""⟩
    else
      match ← r.carryOut with
      | .error e => return ⟨1, "", e.message⟩
      | .ok paths => return ⟨0, String.join (paths.map fun p => p ++ "\n"), ""⟩

end

end TestScribe

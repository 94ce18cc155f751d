import TestScribe.Json
import TestScribe.Marking
import TestScribe.Model
import TestScribe.Predicate.Parser
import TestScribe.Transition

/-!
# Documents of the domain's values

Predicates are written as their text, tuples as lists, bindings and markings as objects. Goals and
transitions are records, each with its `fieldNames` in the order of an array.
-/

namespace TestScribe

namespace Tuple

def decode (v : Json) : Option Tuple :=
  v.toList? Json.toText?

def encode (t : Tuple) : Json :=
  .ofTexts t

end Tuple

namespace Predicate

def decode (v : Json) : Option Predicate :=
  v.toText?.bind fun text => (Predicate.parse text).toOption

def encode (p : Predicate) : Json :=
  .str p.display

def decodeList (v : Json) : Option (List Predicate) :=
  v.toList? decode

def encodeList (ps : List Predicate) : Json :=
  .arr (ps.map encode)

end Predicate

namespace Bindings

def decode (v : Json) : Option Bindings :=
  v.toDict? Json.toText?

def encode (b : Bindings) : Json :=
  .ofDict .str b

end Bindings

namespace Marking

def decode (v : Json) : Option Marking :=
  v.toDict? fun places => places.toList? Tuple.decode

def encode (m : Marking) : Json :=
  .ofDict (fun tuples => .arr (tuples.map Tuple.encode)) m

end Marking

namespace Goal

def fieldNames : List String :=
  ["name", "condition", "negated"]

def decode (v : Json) : Option Goal := do
  let fields ← v.record? fieldNames
  return {
    name := ← Json.required fields "name" Json.toText?
    condition := ← Json.required fields "condition" Predicate.decodeList
    negated := ← Json.optional fields "negated" Predicate.decodeList [] }

def encode (g : Goal) : Json :=
  .obj [
    ("name", .str g.name),
    ("condition", Predicate.encodeList g.condition),
    ("negated", Predicate.encodeList g.negated)]

end Goal

namespace Transition

def fieldNames : List String :=
  ["name", "parameters", "precondition", "delete_precondition", "postcondition", "effect"]

def decode (v : Json) : Option Transition := do
  let fields ← v.record? fieldNames
  let predicates (name : String) := Json.optional fields name Predicate.decodeList []
  return {
    name := ← Json.optional fields "name" Json.toText? ""
    parameters := ← Json.optional fields "parameters" (Json.orNull? Tuple.decode) none
    precondition := ← Json.optional fields "precondition" (Json.orNull? Predicate.decodeList) none
    deletePrecondition := ← predicates "delete_precondition"
    postcondition := ← predicates "postcondition"
    effect := ← predicates "effect" }

def encode (t : Transition) : Json :=
  .obj [
    ("name", .str t.name),
    ("parameters", .ofOption .ofTexts t.parameters),
    ("precondition", .ofOption Predicate.encodeList t.precondition),
    ("delete_precondition", Predicate.encodeList t.deletePrecondition),
    ("postcondition", Predicate.encodeList t.postcondition),
    ("effect", Predicate.encodeList t.effect)]

end Transition

namespace MappingKind

def decode (v : Json) : Option MappingKind :=
  v.choice?.bind fun text => all.find? fun k => k.name == text

def encode (k : MappingKind) : Json :=
  .str k.name

end MappingKind

end TestScribe

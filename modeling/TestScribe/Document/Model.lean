import TestScribe.Document.Value
import TestScribe.Model.Draft

/-!
# Model documents

A model document lists the declarations of a model; `ModelDocument.build` makes them in the order of
its fields.
-/

namespace TestScribe

/-- A mapping as it is written: the texts of its pattern and its operator. -/
structure MappingText where
  pattern : String
  operator : String
deriving DecidableEq, Repr

structure ModelDocument where
  systemName : String
  constructorEvent : Option String
  places : List String
  hidden : List String
  options : List String
  goals : List Goal
  objects : Dict String
  parameters : Dict (List String)
  actions : List MappingText
  accessors : List MappingText
  mutators : List MappingText
  transitions : List Transition
deriving DecidableEq

namespace MappingText

def fieldNames : List String :=
  ["pattern", "operator"]

def decode (v : Json) : Option MappingText := do
  let fields ← v.record? fieldNames
  return {
    pattern := ← Json.required fields "pattern" Json.toText?
    operator := ← Json.required fields "operator" Json.toText? }

def encode (m : MappingText) : Json :=
  .obj [("pattern", .str m.pattern), ("operator", .str m.operator)]

end MappingText

namespace ModelDocument

def empty : ModelDocument :=
  ⟨"", none, [], [], [], [], ∅, ∅, [], [], [], []⟩

def fieldNames : List String :=
  ["system_name", "constructor_event", "places", "hidden", "options", "goals", "objects",
    "parameters", "actions", "accessors", "mutators", "transitions"]

def decode (v : Json) : Option ModelDocument := do
  let fields ← v.record? fieldNames
  let names (name : String) := Json.optional fields name Tuple.decode []
  let mappings (name : String) :=
    Json.optional fields name (Json.toList? MappingText.decode) []
  return {
    systemName := ← Json.optional fields "system_name" Json.toText? ""
    constructorEvent := ← Json.optional fields "constructor_event" (Json.orNull? Json.toText?) none
    places := ← names "places"
    hidden := ← names "hidden"
    options := ← names "options"
    goals := ← Json.optional fields "goals" (Json.toList? Goal.decode) []
    objects := ← Json.optional fields "objects" (Json.toDict? Json.toText?) ∅
    parameters := ← Json.optional fields "parameters" (Json.toDict? Tuple.decode) ∅
    actions := ← mappings "actions"
    accessors := ← mappings "accessors"
    mutators := ← mappings "mutators"
    transitions := ← Json.optional fields "transitions" (Json.toList? Transition.decode) [] }

def encode (d : ModelDocument) : Json :=
  .obj [
    ("system_name", .str d.systemName),
    ("constructor_event", .ofOption .str d.constructorEvent),
    ("places", .ofTexts d.places),
    ("hidden", .ofTexts d.hidden),
    ("options", .ofTexts d.options),
    ("goals", .arr (d.goals.map Goal.encode)),
    ("objects", .ofDict .str d.objects),
    ("parameters", .ofDict .ofTexts d.parameters),
    ("actions", .arr (d.actions.map MappingText.encode)),
    ("accessors", .arr (d.accessors.map MappingText.encode)),
    ("mutators", .arr (d.mutators.map MappingText.encode)),
    ("transitions", .arr (d.transitions.map Transition.encode))]

def mappings (kind : MappingKind) (texts : List MappingText) : List Declaration :=
  texts.map fun m => .mapping kind m.pattern m.operator

def declarations (d : ModelDocument) : List Declaration :=
  d.constructorEvent.toList.map .constructorEvent ++ d.places.map .place ++
    d.hidden.map .hidden ++ d.options.map .option ++ d.goals.map .goal ++
    d.objects.entries.map (fun e => .object e.1 e.2) ++
    d.parameters.entries.map (fun e => .parameters e.1 e.2) ++
    mappings .action d.actions ++ mappings .accessor d.accessors ++
    mappings .mutator d.mutators ++ d.transitions.map .transition

def build (d : ModelDocument) : Except ModelError Model :=
  Model.ofDeclarations d.systemName d.declarations

end ModelDocument

end TestScribe

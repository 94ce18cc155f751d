import TestScribe.Document.Value
import TestScribe.Tree

/-!
# Tree documents

A tree document nests its nodes. `TreeDocument.build` numbers them in the order they are written and
looks their transitions up in a model.
-/

namespace TestScribe

namespace TreeKind

def name : TreeKind → String
  | .standard => "standard"
  | .threatNet => "threat_net"

def decode (v : Json) : Option TreeKind :=
  v.choice?.bind fun text => [standard, threatNet].find? fun k => k.name == text

def encode (k : TreeKind) : Json :=
  .str k.name

end TreeKind

/-- A node without its children. Its transition has the event's name unless another is given. -/
structure StepDocument where
  event : String
  transition : Option String
  substitution : Option Bindings
  marking : Marking
  negative : Bool
  testCaseId : Option String
  parameters : List String
  statements : List String
deriving DecidableEq

inductive NodeDocument
  | node (step : StepDocument) (children : List NodeDocument)

structure TreeDocument where
  kind : TreeKind
  initialMarking : Marking
  children : List NodeDocument

namespace StepDocument

def fieldNames : List String :=
  ["event", "transition", "substitution", "marking", "negative", "test_case_id", "parameters",
    "statements"]

/-- The step of a node's record, in which the children are the last field. -/
def decode (v : Json) : Option StepDocument := do
  let fields ← v.record? (fieldNames ++ ["children"])
  return {
    event := ← Json.optional fields "event" Json.toText? ""
    transition := ← Json.optional fields "transition" (Json.orNull? Json.toText?) none
    substitution := ← Json.optional fields "substitution" (Json.orNull? Bindings.decode) none
    marking := ← Json.optional fields "marking" Marking.decode ∅
    negative := ← Json.optional fields "negative" Json.toBool? false
    testCaseId := ← Json.optional fields "test_case_id" (Json.orNull? Json.toText?) none
    parameters := ← Json.optional fields "parameters" Tuple.decode []
    statements := ← Json.optional fields "statements" Tuple.decode [] }

def encode (d : StepDocument) : List (String × Json) :=
  [("event", .str d.event),
    ("transition", .ofOption .str d.transition),
    ("substitution", .ofOption Bindings.encode d.substitution),
    ("marking", Marking.encode d.marking),
    ("negative", .bool d.negative),
    ("test_case_id", .ofOption .str d.testCaseId),
    ("parameters", .ofTexts d.parameters),
    ("statements", .ofTexts d.statements)]

def transitionName (d : StepDocument) : String :=
  d.transition.getD d.event

/-- The step that the document describes, with its transition from the model. -/
def build (d : StepDocument) (model : Model) : Except TreeError Step :=
  match model.transition? d.transitionName with
  | none => .error (.unknownTransition d.event d.transitionName)
  | some t =>
    .ok ⟨d.event, t, d.substitution, d.marking, d.negative, d.parameters, d.statements⟩

end StepDocument

namespace NodeDocument

mutual

def decode : Json → Option NodeDocument
  | .obj fields => do
    let step ← StepDocument.decode (.obj fields)
    let children ← decodeChildren fields
    return .node step children
  | .arr items => do
    let step ← StepDocument.decode (.arr items)
    let children ← decodeAt StepDocument.fieldNames.length items
    return .node step children
  | _ => none

def decodeChildren : List (String × Json) → Option (List NodeDocument)
  | [] => some []
  | (k, v) :: rest => if k = "children" then decodeList v else decodeChildren rest

/-- The children among the values of a node's fields, at their position. -/
def decodeAt : Nat → List Json → Option (List NodeDocument)
  | _, [] => some []
  | 0, v :: _ => decodeList v
  | i + 1, _ :: rest => decodeAt i rest

def decodeList : Json → Option (List NodeDocument)
  | .arr items => decodeItems items
  | _ => none

def decodeItems : List Json → Option (List NodeDocument)
  | [] => some []
  | v :: rest => do
    let node ← decode v
    let nodes ← decodeItems rest
    return node :: nodes

end

mutual

def encode : NodeDocument → Json
  | .node step children => .obj (step.encode ++ [("children", .arr (encodeList children))])

def encodeList : List NodeDocument → List Json
  | [] => []
  | d :: rest => d.encode :: encodeList rest

end

mutual

def addTo (model : Model) (tree : ExecutionTree) (parent : NodeId) :
    NodeDocument → Except TreeError ExecutionTree
  | .node d children => do
    let step ← d.build model
    let (id, tree) ← tree.addChild parent step d.testCaseId
    addAll model tree id children

def addAll (model : Model) (tree : ExecutionTree) (parent : NodeId) :
    List NodeDocument → Except TreeError ExecutionTree
  | [] => .ok tree
  | d :: rest => do
    let tree ← d.addTo model tree parent
    addAll model tree parent rest

end

end NodeDocument

namespace TreeDocument

def empty : TreeDocument :=
  ⟨.standard, ∅, []⟩

def fieldNames : List String :=
  ["kind", "initial_marking", "children"]

def decode (v : Json) : Option TreeDocument := do
  let fields ← v.record? fieldNames
  return {
    kind := ← Json.optional fields "kind" TreeKind.decode .standard
    initialMarking := ← Json.optional fields "initial_marking" Marking.decode ∅
    children := ← Json.optional fields "children" NodeDocument.decodeList [] }

def encode (d : TreeDocument) : Json :=
  .obj [
    ("kind", d.kind.encode),
    ("initial_marking", Marking.encode d.initialMarking),
    ("children", .arr (NodeDocument.encodeList d.children))]

/-- The transition of the root: the model's own for its constructor event, or a bare one. -/
def constructor (model : Model) : Transition :=
  (model.transition? model.constructorEvent).getD (.constructor model.constructorEvent)

def build (d : TreeDocument) (model : Model) : Except TreeError ExecutionTree :=
  NodeDocument.addAll model (.rooted d.kind (constructor model) d.initialMarking)
    ExecutionTree.root d.children

end TreeDocument

end TestScribe

import TestScribe.Marking
import TestScribe.Transition

/-!
# Execution trees

An execution tree holds the steps that tests run through; each leaf ends one test. Nodes are numbered
in the order they were added, the root first. Every node has two slots for generated code, and a slot
that is filled keeps its text until all slots are cleared.
-/

namespace TestScribe

/-- The search that produced a tree: an ordinary one, or one over a net of threats, whose tests never
use object references. -/
inductive TreeKind
  | standard
  | threatNet
deriving DecidableEq, Repr

abbrev NodeId := Nat

def NodeId.display (id : NodeId) : String :=
  "n" ++ toString id

/-- What one step of a test does, and the marking it reaches. -/
structure Step where
  event : String
  transition : Transition
  bindings : Option Bindings
  marking : Marking
  negative : Bool
  parameters : List String
  statements : List String
deriving DecidableEq

def Step.firing (t : Transition) : Step :=
  ⟨t.name, t, none, ∅, false, [], []⟩

inductive Slot
  | input
  | oracle
deriving DecidableEq, Repr

def Slot.name : Slot → String
  | .input => "input"
  | .oracle => "oracle"

structure Node extends Step where
  id : NodeId
  testCaseId : String
  parent : Option NodeId
  children : List NodeId
  inputCode : Option String
  oracleCode : Option String
deriving DecidableEq

namespace Node

def isRoot (n : Node) : Bool :=
  n.parent.isNone

def isLeaf (n : Node) : Bool :=
  n.children.isEmpty

def code? (n : Node) : Slot → Option String
  | .input => n.inputCode
  | .oracle => n.oracleCode

/-- Put code into a slot that is empty; a filled slot stays as it is. -/
def fill (n : Node) (slot : Slot) (code : String) : Node :=
  match slot with
  | .input => { n with inputCode := n.inputCode.or (some code) }
  | .oracle => { n with oracleCode := n.oracleCode.or (some code) }

def clear (n : Node) : Node :=
  { n with inputCode := none, oracleCode := none }

/-- The test-case id of the child at a position counted from 1: the node's own id extended by the
position, or the position alone under the root. -/
def childTestCaseId (n : Node) (position : Nat) : String :=
  if n.isRoot then toString position
  else n.testCaseId ++ "_" ++ toString position

end Node

inductive TreeError
  | unknownNode (id : NodeId)
  | unknownTransition (event name : String)
  | codeAlreadySet (id : NodeId) (slot : Slot)
deriving DecidableEq, Repr

def TreeError.message : TreeError → String
  | .unknownNode id => "unknown node " ++ id.display
  | .unknownTransition event name =>
    "unknown transition '" ++ name ++ "' for event '" ++ event ++ "'"
  | .codeAlreadySet id slot => slot.name ++ " code already set for node " ++ id.display

structure ExecutionTree where
  kind : TreeKind
  nodes : Array Node
deriving DecidableEq

namespace ExecutionTree

/-- A tree of its root alone, which fires the constructor. -/
def rooted (kind : TreeKind) (constructor : Transition) (marking : Marking) : ExecutionTree :=
  { kind
    nodes := #[{ Step.firing constructor with
      marking, id := 0, testCaseId := "", parent := none, children := [],
      inputCode := none, oracleCode := none }] }

def root : NodeId := 0

def size (t : ExecutionTree) : Nat :=
  t.nodes.size

def node? (t : ExecutionTree) (id : NodeId) : Option Node :=
  t.nodes[id]?

def childrenOf (t : ExecutionTree) (id : NodeId) : List NodeId :=
  match t.node? id with
  | some n => n.children
  | none => []

/-- The next node of a tree, under the node `p`. Without a test-case id of its own it gets the one of its
position. -/
def newChild (t : ExecutionTree) (p : Node) (parent : NodeId) (step : Step)
    (testCaseId : Option String) : Node :=
  { step with
    id := t.size
    testCaseId := testCaseId.getD (p.childTestCaseId (p.children.length + 1))
    parent := some parent
    children := []
    inputCode := none
    oracleCode := none }

def addChild (t : ExecutionTree) (parent : NodeId) (step : Step) (testCaseId : Option String) :
    Except TreeError (NodeId × ExecutionTree) :=
  match t.node? parent with
  | none => .error (.unknownNode parent)
  | some p =>
    let nodes := t.nodes.modify parent fun n => { n with children := n.children ++ [t.size] }
    .ok (t.size, { t with nodes := nodes.push (t.newChild p parent step testCaseId) })

/-! ### Code slots -/

/-- Put code into a slot of a node unless it is filled; an unknown node changes nothing. -/
def fill (t : ExecutionTree) (id : NodeId) (slot : Slot) (code : String) : ExecutionTree :=
  { t with nodes := t.nodes.modify id fun n => n.fill slot code }

def setCode (t : ExecutionTree) (id : NodeId) (slot : Slot) (code : String) :
    Except TreeError ExecutionTree :=
  match t.node? id with
  | none => .error (.unknownNode id)
  | some n =>
    match n.code? slot with
    | some _ => .error (.codeAlreadySet id slot)
    | none => .ok (t.fill id slot code)

def codeOrFill (t : ExecutionTree) (id : NodeId) (slot : Slot) (code : String) :
    Except TreeError (String × ExecutionTree) :=
  match t.node? id with
  | none => .error (.unknownNode id)
  | some n => .ok ((n.code? slot).getD code, t.fill id slot code)

def clear (t : ExecutionTree) : ExecutionTree :=
  { t with nodes := t.nodes.map Node.clear }

end ExecutionTree

end TestScribe

import TestScribe.Code.Input
import TestScribe.Code.Oracle
import TestScribe.Suite.Layout
import TestScribe.Tree.Walk

/-!
# Generation runs

A run writes the code of the steps into the slots of a tree and the tests into a suite. It polls its
signal once for each step it comes to, and stops with `RunError.cancelled` when the signal asks it to.
-/

namespace TestScribe

inductive Phase
  | idle
  | traversing
  | rendering
  | done
  | cancelled
  | failed
deriving DecidableEq, Repr

namespace Phase

def name : Phase → String
  | .idle => "idle"
  | .traversing => "traversing"
  | .rendering => "rendering"
  | .done => "done"
  | .cancelled => "cancelled"
  | .failed => "failed"

def isTerminal : Phase → Bool
  | .done | .cancelled | .failed => true
  | .idle | .traversing | .rendering => false

end Phase

/-- What the polls of a run see. A request to cancel, once made, stays. -/
inductive Signal
  | quiet
  | cancelAfter (polls : Nat)
deriving DecidableEq, Repr

namespace Signal

def isCancelled : Signal → Bool
  | .quiet => false
  | .cancelAfter n => n == 0

def next : Signal → Signal
  | .quiet => .quiet
  | .cancelAfter n => .cancelAfter (n - 1)

end Signal

inductive RunError
  | cancelled
  | destinationUnavailable (path : String)
  | notWritten (path : String)
  | tree (cause : TreeError)
deriving DecidableEq, Repr

def RunError.message : RunError → String
  | .cancelled => "generation was cancelled"
  | .destinationUnavailable path =>
    "output destination " ++ path ++ " cannot be created" ++
      if path.toList.contains '\x00' then ": file name contained an unexpected NUL byte" else ""
  | .notWritten path => "failed to write " ++ path
  | .tree cause => cause.message

/-- What a run changes: the slots of the tree, the signal it polls, and the phases it has entered. -/
structure RunState where
  tree : ExecutionTree
  signal : Signal
  phases : List Phase
deriving DecidableEq

abbrev Run := ExceptT RunError (StateM RunState)

def StepWriter.write (w : StepWriter) (n : Node) : Slot → String
  | .input => w.inputCode n.testCaseId n.toStep
  | .oracle => w.oracleCode n.testCaseId n.toStep

def StepWriter.startTag (w : StepWriter) (path : List Marking) : String :=
  if w.options.tagsAtStart then goalTag (goalsOnPath w.model.goals path) w.options w.margin else ""

namespace Run

def poll : Run Unit := do
  let s ← get
  set { s with signal := s.signal.next }
  if s.signal.isCancelled then throw .cancelled

def enter (phase : Phase) : Run Unit :=
  modify fun s => { s with phases := s.phases ++ [phase] }

/-- The code of a slot, written now if the slot is empty. -/
def slotCode (w : StepWriter) (n : Node) (slot : Slot) : Run String := do
  let code := (n.code? slot).getD (w.write n slot)
  modify fun s => { s with tree := s.tree.fill n.id slot code }
  return code

/-- The input and oracle code of a node; the constructor has none and its slots stay empty. -/
def nodeCode (w : StepWriter) (id : NodeId) : Run String := do
  match (← get).tree.node? id with
  | none => return ""
  | some n =>
    if w.model.isConstructor n.event then return ""
    else
      let input ← slotCode w n .input
      let oracle ← slotCode w n .oracle
      return input ++ oracle

/-- The code of some nodes, with a poll before each. -/
def nodesCode (w : StepWriter) : List NodeId → Run String
  | [] => return ""
  | id :: rest => do
    poll
    let code ← nodeCode w id
    let more ← nodesCode w rest
    return code ++ more

/-- Write the code of every node, level by level. -/
def fillTree (w : StepWriter) : Run Unit := do
  let _ ← nodesCode w (← get).tree.breadthFirst

def testBody (w : StepWriter) (path : List NodeId) : Run String := do
  let tree := (← get).tree
  let tag := w.startTag ((path.filterMap tree.node?).map fun n => n.marking)
  let code ← nodesCode w path
  return tag ++ code

def ofTree {α : Type} : Except TreeError α → Run α
  | .ok a => return a
  | .error e => throw (.tree e)

def leafBody (w : StepWriter) (leaf : NodeId) : Run String := do
  let path ← ofTree ((← get).tree.pathTo leaf)
  testBody w path

end Run

/-- The id of the test with a number, counted from 1, that ends at a node. -/
def Options.testId (o : Options) (tree : ExecutionTree) (number : Nat) (leaf : NodeId) :
    Except TreeError String :=
  if o.includeSequenceIndices then
    match tree.node? leaf with
    | some n => .ok (toString number ++ "_" ++ n.testCaseId)
    | none => .error (.unknownNode leaf)
  else .ok (toString number)

namespace Run

/-- The tests that end at some leaves, the first of them with the given number. -/
def testCases (w : StepWriter) (number : Nat) : List NodeId → Run (List TestCase)
  | [] => return []
  | leaf :: rest => do
    let body ← leafBody w leaf
    let id ← ofTree (w.options.testId (← get).tree number leaf)
    let tests ← testCases w (number + 1) rest
    return ⟨id, body⟩ :: tests

end Run

def separateFile (model : Model) (l : Language) (suite : String) (t : TestCase) :
    String × SuiteFile :=
  let stem := suite ++ "_" ++ t.id
  (stem, ⟨stem ++ "." ++ l.fileExtension, l.layout.render ⟨stem, model.systemName⟩ [t]⟩)

/-- The suite of some tests: one file, or one file a test and an index. -/
def Suite.assemble (model : Model) (o : Options) (name : String) (tests : List TestCase) : Suite :=
  let info : FileInfo := ⟨name, model.systemName⟩
  let main := name ++ "." ++ o.language.fileExtension
  if o.separateTestFiles then
    let files := tests.map (separateFile model o.language name)
    ⟨name, files.map (·.2) ++ [⟨main, o.language.layout.index info (files.map (·.1))⟩]⟩
  else ⟨name, [⟨main, o.language.layout.render info tests⟩]⟩

/-- Write every test of the tree; when eager, the code of every node first. -/
def Run.suite (w : StepWriter) (name : String) : Run Suite := do
  if w.options.eager then
    enter .traversing
    fillTree w
  enter .rendering
  let tests ← testCases w 1 (← get).tree.leaves
  return .assemble w.model w.options name tests

end TestScribe

import TestScribe.Suite.Writer

/-!
# Generators

A generator writes the tests of a model under some options. Each operation reports its result, what it
left in the tree and in the signal, and the phases it entered; only `generate` and `save` enter any.
-/

namespace TestScribe

structure Generator where
  model : Model
  options : Options
deriving DecidableEq

/-- What an operation gave and left behind. -/
structure Report (α : Type) where
  result : Except RunError α
  tree : ExecutionTree
  signal : Signal
  phases : List Phase

def endPhase {α : Type} : Except RunError α → Phase
  | .ok _ => .done
  | .error .cancelled => .cancelled
  | .error _ => .failed

def Run.report {α : Type} (r : Run α) (tree : ExecutionTree) (signal : Signal)
    (phases : List Phase) : Report α :=
  let (result, s) := r.run.run ⟨tree, signal, phases⟩
  ⟨result, s.tree, s.signal, s.phases⟩

/-- End a run: its last phase tells how it went. -/
def Report.finish {α : Type} (r : Report α) : Report α :=
  { r with phases := r.phases ++ [endPhase r.result] }

namespace Generator

def dialect (g : Generator) (tree : ExecutionTree) : Dialect :=
  g.options.dialect tree.kind

def writer (g : Generator) (tree : ExecutionTree) : StepWriter :=
  .forTree g.model g.options tree.kind

def treeCode (g : Generator) (tree : ExecutionTree) (signal : Signal) : Report Unit :=
  (Run.fillTree (g.writer tree)).report tree signal []

/-- The body of the test that ends at a node, without the structure of a suite. -/
def review (g : Generator) (tree : ExecutionTree) (signal : Signal) (leaf : NodeId) :
    Report String :=
  (Run.leafBody (g.writer tree) leaf).report tree.clear signal []

/-- The suite of a run from empty slots, before the run ends. -/
def render (g : Generator) (tree : ExecutionTree) (signal : Signal) (name : String) :
    Report Suite :=
  (Run.suite (g.writer tree) name).report tree.clear signal [.idle]

def generate (g : Generator) (tree : ExecutionTree) (signal : Signal) (name : String) :
    Report Suite :=
  (g.render tree signal name).finish

/-- Generate the suite that a destination names and write it into the destination's directory: the
paths of its files. Nothing is written before every test is. -/
def save {m : Type → Type} [Monad m] [Storage m] (g : Generator) (tree : ExecutionTree)
    (signal : Signal) (destination : Path) : m (Report (List Path)) := do
  let r := g.render tree signal (suiteName destination)
  let result ←
    match r.result with
    | .ok suite => suite.write (suiteDirectory destination)
    | .error e => pure (.error e)
  return Report.finish { result, tree := r.tree, signal := r.signal, phases := r.phases }

end Generator

end TestScribe

import TestScribe.Generator

/-!
# Sessions

In a session, several generators work on one tree of a model. Each has its own options and polls one
of the session's signals, which it may share with others. `Session.perform` carries out one action.
-/

namespace TestScribe

/-- A generator of a session: its options, the signal it polls, and the phases it has entered. -/
structure Worker where
  options : Options
  signal : Nat
  phases : List Phase
deriving DecidableEq

/-- The phase entered last; a worker starts idle. -/
def Worker.phase (w : Worker) : Phase :=
  w.phases.getLastD .idle

structure Session where
  model : Model
  tree : ExecutionTree
  workers : List Worker
  signals : List Signal
deriving DecidableEq

inductive Action
  | generate (suite : String)
  | save (destination : Path)
  | review (leaf : NodeId)
  | treeCode
  | testId (number : Nat) (leaf : NodeId)
  | cancel
  | setCode (id : NodeId) (slot : Slot) (code : String)
  | clear
deriving DecidableEq, Repr

inductive Reply
  | nobody
  | done
  | failed (cause : RunError)
  | suite (suite : Suite)
  | saved (paths : List Path)
  | body (text : String)
  | testId (id : String)
  /-- Whether the signal was a request before, and is one now. -/
  | cancelled (before now : Bool)
deriving DecidableEq, Repr

namespace Session

/-- A session of a generator for each of the options; all of them share one signal, or each has its
own. -/
def start (model : Model) (tree : ExecutionTree) (options : List Options) (shared : Bool) :
    Session where
  model
  tree
  workers := options.mapIdx fun i o => ⟨o, if shared then 0 else i, []⟩
  signals := options.map fun _ => .quiet

def signalOf (s : Session) (w : Worker) : Signal :=
  s.signals.getD w.signal .quiet

/-- Take over what an operation of a worker left behind. -/
def absorb {α : Type} (s : Session) (i : Nat) (w : Worker) (r : Report α) : Session :=
  { s with
    tree := r.tree
    signals := s.signals.set w.signal r.signal
    workers := s.workers.set i { w with phases := w.phases ++ r.phases } }

def reply {α : Type} (ok : α → Reply) : Except RunError α → Reply
  | .ok a => ok a
  | .error e => .failed e

def perform {m : Type → Type} [Monad m] [Storage m] (s : Session) (i : Nat) (a : Action) :
    m (Reply × Session) :=
  match s.workers[i]? with
  | none => pure (.nobody, s)
  | some w =>
    let generator : Generator := ⟨s.model, w.options⟩
    let signal := s.signalOf w
    match a with
    | .generate suite =>
      let r := generator.generate s.tree signal suite
      pure (reply .suite r.result, s.absorb i w r)
    | .save destination => do
      let r ← generator.save s.tree signal destination
      return (reply .saved r.result, s.absorb i w r)
    | .review leaf =>
      let r := generator.review s.tree signal leaf
      pure (reply .body r.result, s.absorb i w r)
    | .treeCode =>
      let r := generator.treeCode s.tree signal
      pure (reply (fun _ => .done) r.result, s.absorb i w r)
    | .testId number leaf =>
      match w.options.testId s.tree number leaf with
      | .ok id => pure (.testId id, s)
      | .error e => pure (.failed (.tree e), s)
    | .cancel =>
      pure (.cancelled signal.isCancelled true,
        { s with signals := s.signals.set w.signal (.cancelAfter 0) })
    | .setCode id slot code =>
      match s.tree.setCode id slot code with
      | .ok tree => pure (.done, { s with tree })
      | .error e => pure (.failed (.tree e), s)
    | .clear => pure (.done, { s with tree := s.tree.clear })

end Session

end TestScribe

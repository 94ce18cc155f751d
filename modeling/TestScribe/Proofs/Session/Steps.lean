import Mathlib.Logic.Relation
import TestScribe.Proofs.Run.Phases
import TestScribe.Proofs.Run.Silence
import TestScribe.Session

/-!
# Steps of sessions

All that an action does to a session is to absorb what the worker left behind (`exists_absorb`): the slots of the
tree, the polls of its signal, and the phases it entered. Between actions a session may turn to another model and
tree, workers may join it, requests to cancel may come in from outside, and others may use the storage (`Proceeds`).
-/

namespace TestScribe

open ExecutionTree

/-- A request comes in that the next so many polls do not see. -/
def Signal.request (polls : Nat) : Signal → Signal
  | .quiet => .cancelAfter polls
  | .cancelAfter n => .cancelAfter (min n polls)

/-- Reviewing polls and enters no phase. -/
theorem Generator.review_polls {g : Generator} {tree : ExecutionTree} (h : tree.WellFormed) (signal : Signal)
    (leaf : NodeId) :
    (∃ polls, (g.review tree signal leaf).signal = signal.after polls) ∧
      (g.review tree signal leaf).phases = [] := by
  by_cases hleaf : leaf < tree.size
  · rw [review_eq h hleaf]
    exact ⟨⟨_, rfl⟩, rfl⟩
  · rw [review_of_unknown hleaf]
    exact ⟨⟨0, signal.after_zero.symm⟩, rfl⟩

namespace Session

variable {σ : Type} [Storage (StateM σ)] {s : Session} {i : Nat} {w : Worker}

/-! ### Actions -/

def generator (s : Session) (w : Worker) : Generator :=
  ⟨s.model, w.options⟩

theorem perform_of_nobody (hw : s.workers[i]? = none) (a : Action) (d : σ) :
    (s.perform i a : StateM σ _).run d = ((.nobody, s), d) := by
  rw [perform, hw]
  rfl

theorem perform_generate (hw : s.workers[i]? = some w) {name : String} {r : Report Suite}
    (hr : (s.generator w).generate s.tree (s.signalOf w) name = r) (d : σ) :
    (s.perform i (.generate name) : StateM σ _).run d = ((reply .suite r.result, s.absorb i w r), d) := by
  subst hr
  rw [perform, hw]
  rfl

theorem perform_save (hw : s.workers[i]? = some w) {destination : Path} {d d' : σ} {r : Report (List Path)}
    (hr : ((s.generator w).save s.tree (s.signalOf w) destination : StateM σ _).run d = (r, d')) :
    (s.perform i (.save destination) : StateM σ _).run d = ((reply .saved r.result, s.absorb i w r), d') := by
  rw [perform, hw]
  show (match ((s.generator w).save s.tree (s.signalOf w) destination : StateM σ _).run d with
    | (r, d') => ((reply .saved r.result, s.absorb i w r), d')) = _
  rw [hr]

theorem perform_review (hw : s.workers[i]? = some w) {leaf : NodeId} {r : Report String}
    (hr : (s.generator w).review s.tree (s.signalOf w) leaf = r) (d : σ) :
    (s.perform i (.review leaf) : StateM σ _).run d = ((reply .body r.result, s.absorb i w r), d) := by
  subst hr
  rw [perform, hw]
  rfl

theorem perform_treeCode (hw : s.workers[i]? = some w) {r : Report Unit}
    (hr : (s.generator w).treeCode s.tree (s.signalOf w) = r) (d : σ) :
    (s.perform i .treeCode : StateM σ _).run d = ((reply (fun _ => .done) r.result, s.absorb i w r), d) := by
  subst hr
  rw [perform, hw]
  rfl

/-- What an action of a worker may leave behind: of the tree only the slots have changed, the signal is what some
polls make of it unless there was a request, and only generating and saving enter phases. -/
structure Leaves {α : Type} (s : Session) (w : Worker) (a : Action) (r : Report α) : Prop where
  tree : r.tree.clear = s.tree.clear
  signal : (∃ polls, r.signal = (s.signalOf w).after polls) ∨ a = .cancel ∧ r.signal = .cancelAfter 0
  phases :
    match a with
    | .generate _ | .save _ => Phase.OfRun w.options.eager r.phases
    | _ => r.phases = []

theorem Leaves.phases_cases {α : Type} {a : Action} {r : Report α} (h : s.Leaves w a r) :
    r.phases = [] ∨ Phase.OfRun w.options.eager r.phases := by
  have hphases := h.phases
  cases a with
  | generate name => exact .inr hphases
  | save destination => exact .inr hphases
  | review leaf => exact .inl hphases
  | treeCode => exact .inl hphases
  | testId number leaf => exact .inl hphases
  | cancel => exact .inl hphases
  | setCode id slot code => exact .inl hphases
  | clear => exact .inl hphases

theorem absorb_quiet (hw : s.workers[i]? = some w) {tree : ExecutionTree} {signal : Signal} :
    s.absorb i w (⟨.ok (), tree, signal, []⟩ : Report Unit) =
      { s with tree, signals := s.signals.set w.signal signal } := by
  obtain ⟨hi, rfl⟩ := List.getElem?_eq_some_iff.mp hw
  rw [absorb, List.append_nil, List.set_getElem_self]

theorem set_signalOf (s : Session) (w : Worker) : s.signals.set w.signal (s.signalOf w) = s.signals := by
  rw [signalOf]
  by_cases hj : w.signal < s.signals.length
  · rw [List.getD_eq_getElem?_getD, List.getElem?_eq_getElem hj, Option.getD_some, List.set_getElem_self]
  · rw [List.set_eq_of_length_le (Nat.le_of_not_lt hj)]

theorem exists_absorb (h : s.tree.WellFormed) (hw : s.workers[i]? = some w) (a : Action) (d : σ) :
    ∃ (α : Type) (r : Report α), ((s.perform i a : StateM σ _).run d).1.2 = s.absorb i w r ∧ s.Leaves w a r := by
  have hsame : ∃ polls, s.signalOf w = (s.signalOf w).after polls := ⟨0, (Signal.after_zero _).symm⟩
  cases a with
  | generate name =>
    rw [perform_generate hw rfl]
    refine ⟨_, _, rfl, Generator.clear_operated (.generate (s.generator w) _ name), .inl ?_, ?_⟩
    · rw [Generator.generate_eq h]
      exact ⟨_, rfl⟩
    · exact Generator.ofRun_generate (g := s.generator w) h _ name
  | save destination =>
    have htree : _ = s.tree.clear :=
      Generator.clear_operated (.save (s.generator w) (s.signalOf w) destination d)
    have hsignal := (s.generator w).signal_save s.tree (s.signalOf w) destination d
    have hphases := Generator.ofRun_save (g := s.generator w) h (s.signalOf w) destination d
    rw [Generator.render_eq h] at hsignal
    rcases hr : ((s.generator w).save s.tree (s.signalOf w) destination : StateM σ _).run d with ⟨r, d'⟩
    rw [hr] at htree hsignal hphases
    rw [perform_save hw hr]
    exact ⟨_, r, rfl, htree, .inl ⟨_, hsignal⟩, hphases⟩
  | review leaf =>
    have hreview := Generator.review_polls (g := s.generator w) h (s.signalOf w) leaf
    rw [perform_review hw rfl]
    exact ⟨_, _, rfl, Generator.clear_operated (.review (s.generator w) _ leaf), .inl hreview.1, hreview.2⟩
  | treeCode =>
    rw [perform_treeCode hw (Generator.treeCode_eq h _)]
    exact ⟨_, _, rfl, by rw [clear_complete], .inl ⟨_, rfl⟩, rfl⟩
  | testId number leaf =>
    refine ⟨Unit, ⟨.ok (), s.tree, s.signalOf w, []⟩, ?_, rfl, .inl hsame, rfl⟩
    rw [absorb_quiet hw, set_signalOf, perform, hw]
    dsimp only
    split <;> rfl
  | cancel =>
    refine ⟨Unit, ⟨.ok (), s.tree, .cancelAfter 0, []⟩, ?_, rfl, .inr ⟨rfl, rfl⟩, rfl⟩
    rw [absorb_quiet hw, perform, hw]
    rfl
  | setCode id slot code =>
    cases hset : s.tree.setCode id slot code with
    | ok tree =>
      refine ⟨Unit, ⟨.ok (), tree, s.signalOf w, []⟩, ?_, clear_setCode hset, .inl hsame, rfl⟩
      rw [absorb_quiet hw, set_signalOf, perform, hw]
      dsimp only
      rw [hset]
      rfl
    | error e =>
      refine ⟨Unit, ⟨.ok (), s.tree, s.signalOf w, []⟩, ?_, rfl, .inl hsame, rfl⟩
      rw [absorb_quiet hw, set_signalOf, perform, hw]
      dsimp only
      rw [hset]
      rfl
  | clear =>
    refine ⟨Unit, ⟨.ok (), s.tree.clear, s.signalOf w, []⟩, ?_, s.tree.clear_clear, .inl hsame, rfl⟩
    rw [absorb_quiet hw, set_signalOf, perform, hw]
    rfl

/-! ### Steps -/

/-- One step of a session on a storage: an action of a worker, or what may happen around it. -/
inductive Proceeds : Session × σ → Session × σ → Prop
  | perform (s : Session) (d : σ) (i : Nat) (a : Action) :
    Proceeds (s, d) (((s.perform i a : StateM σ _).run d).1.2, ((s.perform i a : StateM σ _).run d).2)
  | turn (s : Session) (d : σ) (model : Model) {tree : ExecutionTree} (h : tree.WellFormed) :
    Proceeds (s, d) ({ s with model, tree }, d)
  /-- A worker that has not run joins, and may bring signals of its own. -/
  | join (s : Session) (d : σ) (options : Options) (signal : Nat) (signals : List Signal) :
    Proceeds (s, d)
      ({ s with workers := s.workers ++ [⟨options, signal, []⟩], signals := s.signals ++ signals }, d)
  | request (s : Session) (d : σ) (j polls : Nat) :
    Proceeds (s, d) ({ s with signals := s.signals.modify j (Signal.request polls) }, d)
  | store (s : Session) (d d' : σ) : Proceeds (s, d) (s, d')

end Session

end TestScribe

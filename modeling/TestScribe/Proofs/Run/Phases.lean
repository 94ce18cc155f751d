import Mathlib.Data.List.Chain
import TestScribe.Proofs.Run.Saving

/-!
# The phases of runs

`Phase.Next` lists the changes of phase that are allowed. A run that generates or saves enters one of a few lists
of phases (`Phase.OfRun`): it begins idle, each change is allowed, and the phase it ends in is terminal.
-/

namespace TestScribe

open ExecutionTree

namespace Phase

/-- No run is under way. -/
def isResting (p : Phase) : Bool :=
  p == .idle || p.isTerminal

/-- The changes of phase. Only eager runs traverse, and only a run that renders can be done or fail. -/
inductive Next (eager : Bool) : Phase → Phase → Prop
  | start {p : Phase} (h : p.isResting = true) : Next eager p .idle
  | traverse (h : eager = true) : Next eager .idle .traversing
  | render {p : Phase} (h : p = .idle ∨ p = .traversing) : Next eager p .rendering
  | cancel {p : Phase} (h : p = .traversing ∨ p = .rendering) : Next eager p .cancelled
  | done : Next eager .rendering .done
  | fail : Next eager .rendering .failed

/-- The phases that a run enters. -/
inductive OfRun (eager : Bool) : List Phase → Prop
  | stopped (h : eager = true) : OfRun eager [.idle, .traversing, .cancelled]
  | rendered {p : Phase} (h : p.isTerminal = true) :
    OfRun eager (.idle :: (if eager then [.traversing] else []) ++ [.rendering, p])

variable {eager : Bool} {p q : Phase} {phases : List Phase}

/-- A terminal phase is left for the idle one only. -/
theorem Next.eq_idle (h : Next eager p q) (hp : p.isTerminal = true) : q = .idle := by
  cases h with
  | start h => rfl
  | traverse h => cases hp
  | render h => rcases h with rfl | rfl <;> cases hp
  | cancel h => rcases h with rfl | rfl <;> cases hp
  | done => cases hp
  | fail => cases hp

theorem next_of_terminal (hp : p.isTerminal = true) : Next eager .rendering p := by
  cases p with
  | done => exact .done
  | cancelled => exact .cancel (.inr rfl)
  | failed => exact .fail
  | idle => cases hp
  | traversing => cases hp
  | rendering => cases hp

namespace OfRun

theorem isChain (h : OfRun eager phases) (hp : p.isResting = true) : (p :: phases).IsChain (Next eager) := by
  have hstart : Next eager p .idle := .start hp
  cases h with
  | stopped h => simp [hstart, Next.traverse h, Next.cancel]
  | rendered h =>
    cases eager with
    | false => simp [hstart, Next.render, next_of_terminal h]
    | true => simp [hstart, Next.traverse, Next.render, next_of_terminal h]

theorem exists_getLast? (h : OfRun eager phases) : ∃ p, phases.getLast? = some p ∧ p.isTerminal = true := by
  cases h with
  | stopped h => exact ⟨.cancelled, rfl, rfl⟩
  | @rendered p h =>
    refine ⟨p, ?_, h⟩
    rw [List.getLast?_append, List.getLast?_cons_cons, List.getLast?_singleton]
    rfl

end OfRun

end Phase

namespace Generator

variable {g : Generator} {tree : ExecutionTree} {α : Type}

/-- A run that comes as far as rendering does, and ends with what it gives unless that was stopped. -/
theorem ofRun_finish (h : tree.WellFormed) {signal : Signal} {name : String} {r : Report α}
    (hphases : r.phases = (g.render tree signal name).phases)
    (hresult : ∀ e, (g.render tree signal name).result = .error e → r.result = .error e) :
    Phase.OfRun g.options.eager r.finish.phases := by
  have hend : (endPhase r.result).isTerminal = true := by
    rcases r.result with (_ | _ | _ | _) | _ <;> rfl
  have heager : (g.writer tree).options.eager = g.options.eager := rfl
  rw [render_eq h] at hphases hresult
  rw [Report.finish, hphases, StepWriter.phases, heager]
  rw [StepWriter.visits, heager] at hresult
  cases he : g.options.eager with
  | false => exact .rendered hend
  | true =>
    rw [he, if_pos rfl, List.length_append, Signal.allows_add] at hresult
    cases hallows : signal.allows tree.breadthFirst.length with
    | true => exact .rendered hend
    | false =>
      rw [hallows, Bool.false_and] at hresult
      rw [hresult .cancelled rfl]
      exact .stopped rfl

theorem ofRun_generate (h : tree.WellFormed) (signal : Signal) (name : String) :
    Phase.OfRun g.options.eager (g.generate tree signal name).phases :=
  ofRun_finish h rfl fun _ => id

theorem generate_of_not_allows (h : tree.WellFormed) {signal : Signal}
    (hallows : signal.allows ((g.writer tree).visits tree).length = false) (name : String) :
    (g.generate tree signal name).result = .error .cancelled ∧
      (g.generate tree signal name).phases.getLast? = some .cancelled := by
  rw [generate_eq h, hallows]
  exact ⟨rfl, getLast?_phases_finish _⟩

/-- Generating ends done, with a suite, or cancelled. -/
theorem generate_cases (h : tree.WellFormed) (signal : Signal) (name : String) :
    let r := g.generate tree signal name
    (∃ suite, r.result = .ok suite ∧ r.phases.getLast? = some .done) ∨
      r.result = .error .cancelled ∧ r.phases.getLast? = some .cancelled := by
  intro r
  cases hallows : signal.allows ((g.writer tree).visits tree).length with
  | false => exact .inr (generate_of_not_allows h hallows name)
  | true =>
    have hr : r = _ := generate_eq h signal name
    rw [hr, hallows]
    exact .inl ⟨_, rfl, getLast?_phases_finish _⟩

section

variable {σ : Type} [Storage (StateM σ)]

theorem ofRun_save (h : tree.WellFormed) (signal : Signal) (destination : Path) (d : σ) :
    Phase.OfRun g.options.eager ((g.save tree signal destination : StateM σ _).run d).1.phases := by
  rw [save_run]
  dsimp only
  split
  · next suite hsuite => exact ofRun_finish h rfl fun e he => absurd (hsuite.symm.trans he) nofun
  · next e he =>
    refine ofRun_finish h rfl fun e' he' => ?_
    obtain rfl := Except.error.inj (he.symm.trans he')
    rfl

/-- Saving ends done, cancelled with nothing touched, or failed. -/
theorem save_cases (h : tree.WellFormed) (signal : Signal) (destination : Path) (d : σ) :
    let run := (g.save tree signal destination : StateM σ _).run d
    (∃ paths, run.1.result = .ok paths ∧ run.1.phases.getLast? = some .done) ∨
      (run.1.result = .error .cancelled ∧ run.1.phases.getLast? = some .cancelled ∧ run.2 = d) ∨
      (∃ path, (run.1.result = .error (.destinationUnavailable path) ∨ run.1.result = .error (.notWritten path)) ∧
        run.1.phases.getLast? = some .failed) := by
  intro run
  cases hallows : signal.allows ((g.writer tree).visits tree).length with
  | false =>
    obtain ⟨r, hrun, hresult, -⟩ := g.save_of_not_allows h hallows destination d
    obtain ⟨hreport, hd⟩ : run.1 = r.finish ∧ run.2 = d := Prod.mk.inj hrun
    rw [hreport, getLast?_phases_finish, result_finish, hresult]
    exact .inr (.inl ⟨rfl, rfl, hd⟩)
  | true =>
    obtain ⟨suite, -, r, d', hrun, hwrite, -, -⟩ := g.save_of_allows h hallows destination d
    have houtcome := suite.writeOutcome_write (suiteDirectory destination) d
    obtain ⟨hreport, -⟩ : run.1 = r.finish ∧ run.2 = d' := Prod.mk.inj hrun
    rw [hreport, getLast?_phases_finish, result_finish]
    rw [hwrite] at houtcome
    cases hresult : r.result with
    | ok paths => exact .inl ⟨paths, rfl, rfl⟩
    | error e =>
      rw [hresult] at houtcome
      cases houtcome with
      | notMade path => exact .inr (.inr ⟨path, .inl rfl, rfl⟩)
      | notWritten path => exact .inr (.inr ⟨path, .inr rfl, rfl⟩)

end

end Generator

end TestScribe

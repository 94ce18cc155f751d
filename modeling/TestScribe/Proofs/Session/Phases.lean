import TestScribe.Proofs.Session.Steps

/-!
# The phases of workers

Whatever happens in a session, the phases of its workers follow one another as they may, and between actions every
worker rests (`Orderly.of_proceeds`). Only generating and saving change the phase, and the phase they end in says
what they reply (`orderly_of_proceeds`).
-/

namespace TestScribe

open ExecutionTree

namespace Worker

variable {w : Worker} {p : Phase} {phases : List Phase}

def enter (w : Worker) (phases : List Phase) : Worker :=
  { w with phases := w.phases ++ phases }

theorem getLast?_phases (w : Worker) : (Phase.idle :: w.phases).getLast? = some w.phase := by
  rw [List.getLast?_cons, phase, List.getLastD_eq_getLast?]

theorem phase_enter (h : phases.getLast? = some p) : (w.enter phases).phase = p := by
  rw [phase, List.getLastD_eq_getLast?, enter, List.getLast?_append, h]
  rfl

@[simp]
theorem enter_nil (w : Worker) : w.enter [] = w := by
  rw [enter, List.append_nil]

/-- The phases have followed one another as they may, and the worker rests. -/
structure Orderly (w : Worker) : Prop where
  isChain : (Phase.idle :: w.phases).IsChain (Phase.Next w.options.eager)
  isResting : w.phase.isResting = true

namespace Orderly

theorem of_nil (h : w.phases = []) : w.Orderly := by
  refine ⟨?_, ?_⟩
  · rw [h]
    exact List.isChain_singleton _
  · rw [phase, h]
    rfl

theorem enter (h : w.Orderly) (hrun : Phase.OfRun w.options.eager phases) : (w.enter phases).Orderly := by
  obtain ⟨p, hp, hterminal⟩ := hrun.exists_getLast?
  have hstart := List.isChain_cons.mp (hrun.isChain h.isResting)
  refine ⟨?_, ?_⟩
  · -- The two histories join at the phase in which the worker rested.
    rw [Worker.enter, ← List.cons_append, List.isChain_append]
    refine ⟨h.isChain, hstart.2, fun q hq => ?_⟩
    obtain rfl : w.phase = q := Option.some.inj (w.getLast?_phases.symm.trans hq)
    exact hstart.1
  · rw [phase_enter hp, Phase.isResting, hterminal, Bool.or_true]

end Orderly

end Worker

namespace Session

open Worker (phase_enter)

variable {σ : Type} [Storage (StateM σ)] {s s' : Session} {d d' : σ} {i : Nat} {w : Worker}

structure Orderly (s : Session) : Prop where
  tree : s.tree.WellFormed
  workers : ∀ w ∈ s.workers, w.Orderly

theorem getElem?_workers_absorb {α : Type} (hw : s.workers[i]? = some w) (r : Report α) (j : Nat) :
    (s.absorb i w r).workers[j]? = if i = j then some (w.enter r.phases) else s.workers[j]? := by
  rw [absorb, List.getElem?_set]
  split
  · rw [if_pos (List.getElem?_eq_some_iff.mp hw).1]
    rfl
  · rfl

namespace Orderly

theorem perform (h : s.Orderly) (i : Nat) (a : Action) (d : σ) :
    ((s.perform i a : StateM σ _).run d).1.2.Orderly := by
  cases hw : s.workers[i]? with
  | none =>
    rw [perform_of_nobody hw]
    exact h
  | some w =>
    obtain ⟨α, r, hs, hleaves⟩ := exists_absorb h.tree hw a d
    have horderly := h.workers w (List.mem_of_getElem? hw)
    have henter : (w.enter r.phases).Orderly := by
      rcases hleaves.phases_cases with hphases | hphases
      · rwa [hphases, Worker.enter_nil]
      · exact horderly.enter hphases
    rw [hs]
    refine ⟨h.tree.of_clear_eq hleaves.tree, fun w' hw' => ?_⟩
    rcases List.mem_or_eq_of_mem_set hw' with hw' | rfl
    · exact h.workers w' hw'
    · exact henter

theorem proceed {x y : Session × σ} (h : x.1.Orderly) (hstep : Proceeds x y) : y.1.Orderly := by
  cases hstep with
  | perform s d i a => exact h.perform i a d
  | turn s d model htree => exact ⟨htree, h.workers⟩
  | join s d options signal signals =>
    refine ⟨h.tree, List.forall_mem_append.mpr ⟨h.workers, ?_⟩⟩
    exact List.forall_mem_singleton.mpr (.of_nil rfl)
  | request s d j polls => exact ⟨h.tree, h.workers⟩
  | store s d d' => exact h

theorem of_proceeds {x y : Session × σ} (h : x.1.Orderly) (hsteps : Relation.ReflTransGen Proceeds x y) :
    y.1.Orderly := by
  induction hsteps with
  | refl => exact h
  | tail _ hstep ih => exact ih.proceed hstep

end Orderly

theorem getElem?_workers_perform (h : s.tree.WellFormed) (hw : s.workers[i]? = some w) (a : Action) (d : σ) :
    ∃ (α : Type) (r : Report α), s.Leaves w a r ∧ ∀ j,
      ((s.perform i a : StateM σ _).run d).1.2.workers[j]? =
        if i = j then some (w.enter r.phases) else s.workers[j]? := by
  obtain ⟨α, r, hs, hleaves⟩ := exists_absorb h hw a d
  refine ⟨α, r, hleaves, fun j => ?_⟩
  rw [hs, getElem?_workers_absorb hw]

theorem generate_ends (h : s.tree.WellFormed) (hw : s.workers[i]? = some w) (name : String) (d : σ) :
    let run := (s.perform i (.generate name) : StateM σ _).run d
    ∃ w', run.1.2.workers[i]? = some w' ∧
      ((∃ suite, run.1.1 = .suite suite) ∧ w'.phase = .done ∨
        run.1.1 = .failed .cancelled ∧ w'.phase = .cancelled) := by
  intro run
  have hcases := Generator.generate_cases (g := s.generator w) h (s.signalOf w) name
  obtain ⟨r, hr⟩ : ∃ r, (s.generator w).generate s.tree (s.signalOf w) name = r := ⟨_, rfl⟩
  have hrun : run = _ := perform_generate hw hr d
  rw [hrun]
  rw [hr] at hcases
  refine ⟨w.enter r.phases, (getElem?_workers_absorb hw r i).trans (if_pos rfl), ?_⟩
  rcases hcases with ⟨suite, hresult, hlast⟩ | ⟨hresult, hlast⟩
  · rw [phase_enter hlast, hresult]
    exact .inl ⟨⟨suite, rfl⟩, rfl⟩
  · rw [phase_enter hlast, hresult]
    exact .inr ⟨rfl, rfl⟩

theorem save_ends (h : s.tree.WellFormed) (hw : s.workers[i]? = some w) (destination : Path) (d : σ) :
    let run := (s.perform i (.save destination) : StateM σ _).run d
    ∃ w', run.1.2.workers[i]? = some w' ∧
      ((∃ paths, run.1.1 = .saved paths) ∧ w'.phase = .done ∨
        run.1.1 = .failed .cancelled ∧ w'.phase = .cancelled ∨
        (∃ path, run.1.1 = .failed (.destinationUnavailable path) ∨ run.1.1 = .failed (.notWritten path)) ∧
          w'.phase = .failed) := by
  intro run
  have hcases := Generator.save_cases (g := s.generator w) h (s.signalOf w) destination d
  rcases hr : ((s.generator w).save s.tree (s.signalOf w) destination : StateM σ _).run d with ⟨r, d'⟩
  have hrun : run = _ := perform_save hw hr
  rw [hrun]
  rw [hr] at hcases
  refine ⟨w.enter r.phases, (getElem?_workers_absorb hw r i).trans (if_pos rfl), ?_⟩
  rcases hcases with ⟨paths, hresult, hlast⟩ | ⟨hresult, hlast, -⟩ | ⟨path, hresult | hresult, hlast⟩
  · rw [phase_enter hlast, hresult]
    exact .inl ⟨⟨paths, rfl⟩, rfl⟩
  · rw [phase_enter hlast, hresult]
    exact .inr (.inl ⟨rfl, rfl⟩)
  · rw [phase_enter hlast, hresult]
    exact .inr (.inr ⟨⟨path, .inl rfl⟩, rfl⟩)
  · rw [phase_enter hlast, hresult]
    exact .inr (.inr ⟨⟨path, .inr rfl⟩, rfl⟩)

/-- However a session proceeds, each worker's phases have followed one another as they may; none has left a
terminal phase but for the idle one, and between actions no worker traverses or renders. Only generating and saving
change the phase of the worker that does it, and of no other. Generating ends done, with a suite, or else
cancelled. Saving ends done, cancelled, or failed when something could not be created or written. -/
theorem orderly_of_proceeds (htree : s.tree.WellFormed) (hfresh : ∀ w ∈ s.workers, w.phases = [])
    (h : Relation.ReflTransGen Proceeds (s, d) (s', d')) :
    (∀ w ∈ s'.workers,
      (Phase.idle :: w.phases).IsChain (Phase.Next w.options.eager) ∧
      (Phase.idle :: w.phases).IsChain (fun p q => p.isTerminal = true → q = .idle) ∧
      w.phase.isResting = true) ∧
    ∀ i w, s'.workers[i]? = some w → ∀ a,
      let run := (s'.perform i a : StateM σ _).run d'
      (∀ j ≠ i, run.1.2.workers[j]? = s'.workers[j]?) ∧
      ∃ w', run.1.2.workers[i]? = some w' ∧
        match a with
        | .generate _ =>
          (∃ suite, run.1.1 = .suite suite) ∧ w'.phase = .done ∨
            run.1.1 = .failed .cancelled ∧ w'.phase = .cancelled
        | .save _ =>
          (∃ paths, run.1.1 = .saved paths) ∧ w'.phase = .done ∨
            run.1.1 = .failed .cancelled ∧ w'.phase = .cancelled ∨
            (∃ path, run.1.1 = .failed (.destinationUnavailable path) ∨ run.1.1 = .failed (.notWritten path)) ∧
              w'.phase = .failed
        | _ => w' = w := by
  have hstart : s.Orderly := ⟨htree, fun w hw => .of_nil (hfresh w hw)⟩
  have horderly : s'.Orderly := hstart.of_proceeds h
  refine ⟨fun w hw => ?_, fun i w hw a => ?_⟩
  · have hworker := horderly.workers w hw
    exact ⟨hworker.isChain, hworker.isChain.imp fun p q hnext => hnext.eq_idle, hworker.isResting⟩
  · obtain ⟨α, r, hleaves, hworkers⟩ := getElem?_workers_perform horderly.tree hw a d'
    have hsame (hphases : r.phases = []) :
        ((s'.perform i a : StateM σ _).run d').1.2.workers[i]? = some w := by
      rw [hworkers, if_pos rfl, hphases, Worker.enter_nil]
    refine ⟨fun j hj => (hworkers j).trans (if_neg (Ne.symm hj)), ?_⟩
    cases a with
    | generate name => exact generate_ends horderly.tree hw name d'
    | save destination => exact save_ends horderly.tree hw destination d'
    | review leaf => exact ⟨w, hsame hleaves.phases, rfl⟩
    | treeCode => exact ⟨w, hsame hleaves.phases, rfl⟩
    | testId number leaf => exact ⟨w, hsame hleaves.phases, rfl⟩
    | cancel => exact ⟨w, hsame hleaves.phases, rfl⟩
    | setCode id slot code => exact ⟨w, hsame hleaves.phases, rfl⟩
    | clear => exact ⟨w, hsame hleaves.phases, rfl⟩

/-- An eager worker gives a suite; then it is asked to stop, and stops before it renders again. -/
theorem orderly_of_proceeds_sharedLogin :
    let s := start (Draft.empty "Bank").toModel sharedLogin [{ Options.default with eager := true }] false
    let disk : Disk := ⟨"/home", [("/home", .directory)]⟩
    let generated := (s.perform 0 (.generate "BankTest") : StateM Disk _).run disk
    let cancelled := (generated.1.2.perform 0 .cancel : StateM Disk _).run generated.2
    let saved := (cancelled.1.2.perform 0 (.save "out/BankTest.java") : StateM Disk _).run cancelled.2
    saved.1.1 = .failed .cancelled ∧
      saved.1.2.workers.map (fun w => w.phases) =
        [[.idle, .traversing, .rendering, .done, .idle, .traversing, .cancelled]] ∧
      ∀ w ∈ saved.1.2.workers,
        (Phase.idle :: w.phases).IsChain (Phase.Next w.options.eager) ∧ w.phase.isResting = true := by
  intro s disk generated cancelled saved
  have hsteps : Relation.ReflTransGen Proceeds (s, disk) (saved.1.2, saved.2) :=
    ((Relation.ReflTransGen.single (.perform s disk 0 _)).tail (.perform _ _ 0 .cancel)).tail (.perform _ _ 0 _)
  have horderly := orderly_of_proceeds reachable_sharedLogin.wellFormed (by decide +kernel) hsteps
  refine ⟨by decide +kernel, by decide +kernel, fun w hw => ?_⟩
  exact ⟨(horderly.1 w hw).1, (horderly.1 w hw).2.2⟩

end Session

end TestScribe

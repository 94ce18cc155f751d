import TestScribe.Proofs.Session.Phases

/-!
# Cancelling

A request to cancel stays (`CancelledAt.of_proceeds`), and every run on a tree that has a node besides its root
comes to a poll that sees it, before anything is written (`cancelled_of_cancels`). On a root alone there is no
poll (`cancel_unseen_at_root`).
-/

namespace TestScribe

open ExecutionTree

namespace Signal

theorem request_zero (s : Signal) : s.request 0 = .cancelAfter 0 := by
  cases s with
  | quiet => rfl
  | cancelAfter n => rw [request, Nat.min_zero]

theorem request_cancelled (polls : Nat) : (cancelAfter 0).request polls = .cancelAfter 0 := by
  rw [request, Nat.zero_min]

theorem after_cancelled (polls : Nat) : (cancelAfter 0).after polls = .cancelAfter 0 := by
  rw [after, Nat.zero_sub]

end Signal

namespace Generator

variable {g : Generator} {tree : ExecutionTree}

/-- A request is seen at the first node that a run comes to. -/
theorem not_allows_visits (w : StepWriter) (h : tree.WellFormed) (hsize : 1 < tree.size) :
    (Signal.cancelAfter 0).allows (w.visits tree).length = false := by
  have hvisit : 1 ∈ w.visits tree := (w.mem_visits_iff h).mpr ⟨Nat.one_ne_zero, hsize⟩
  exact decide_eq_false (Nat.not_le_of_lt (List.length_pos_of_mem hvisit))

end Generator

namespace Session

open Worker (phase_enter)

variable {σ : Type} [Storage (StateM σ)] {s s₁ s₂ : Session} {d d₁ d₂ : σ} {x y : Session × σ} {i j : Nat}
  {w : Worker}

/-- Cancel is called on a clone of a signal, by a worker that polls it or from outside. -/
inductive Cancels (j : Nat) : Session × σ → Session × σ → Prop
  | worker {s : Session} {i : Nat} {w : Worker} (hw : s.workers[i]? = some w) (hj : w.signal = j) (d : σ) :
    Cancels j (s, d) (((s.perform i .cancel : StateM σ _).run d).1.2, d)
  | outside (s : Session) (d : σ) :
    Cancels j (s, d) ({ s with signals := s.signals.modify j (Signal.request 0) }, d)

structure CancelledAt (s : Session) (j : Nat) : Prop where
  tree : s.tree.WellFormed
  signal : s.signals[j]? = some (.cancelAfter 0)

namespace CancelledAt

theorem of_cancels (h : x.1.tree.WellFormed) (hj : j < x.1.signals.length) (hcancel : Cancels j x y) :
    y.1.CancelledAt j := by
  cases hcancel with
  | @worker s i w hw hw' d =>
    subst hw'
    refine ⟨?_, ?_⟩
    · rw [perform, hw]
      exact h
    · rw [perform, hw]
      exact List.getElem?_set_self hj
  | outside s d =>
    refine ⟨h, ?_⟩
    rw [List.getElem?_modify_eq, List.getElem?_eq_getElem hj]
    exact congrArg some (Signal.request_zero _)

theorem signalOf (h : s.CancelledAt j) (hj : w.signal = j) : s.signalOf w = .cancelAfter 0 := by
  rw [Session.signalOf, hj, List.getD_eq_getElem?_getD, h.signal]
  rfl

theorem perform (h : s.CancelledAt j) (i : Nat) (a : Action) (d : σ) :
    ((s.perform i a : StateM σ _).run d).1.2.CancelledAt j := by
  cases hw : s.workers[i]? with
  | none =>
    rw [perform_of_nobody hw]
    exact h
  | some w =>
    obtain ⟨α, r, hs, hleaves⟩ := exists_absorb h.tree hw a d
    rw [hs]
    refine ⟨h.tree.of_clear_eq hleaves.tree, ?_⟩
    show (s.signals.set w.signal r.signal)[j]? = _
    rw [List.getElem?_set]
    split
    · next hj =>
      have hr : r.signal = .cancelAfter 0 := by
        rcases hleaves.signal with ⟨polls, hr⟩ | ⟨-, hr⟩
        · rw [hr, h.signalOf hj, Signal.after_cancelled]
        · exact hr
      rw [if_pos (hj ▸ (List.getElem?_eq_some_iff.mp h.signal).1), hr]
    · exact h.signal

theorem proceed (h : x.1.CancelledAt j) (hstep : Proceeds x y) : y.1.CancelledAt j := by
  cases hstep with
  | perform s d i a => exact h.perform i a d
  | turn s d model htree => exact ⟨htree, h.signal⟩
  | join s d options signal signals =>
    have hlt := (List.getElem?_eq_some_iff.mp h.signal).1
    exact ⟨h.tree, (List.getElem?_append_left hlt).trans h.signal⟩
  | request s d j' polls =>
    refine ⟨h.tree, ?_⟩
    show (s.signals.modify j' (Signal.request polls))[j]? = _
    by_cases hj : j' = j
    · rw [hj, List.getElem?_modify_eq, h.signal]
      exact congrArg some (Signal.request_cancelled polls)
    · rw [List.getElem?_modify_ne _ _ hj, h.signal]
  | store s d d' => exact h

theorem of_proceeds (h : x.1.CancelledAt j) (hsteps : Relation.ReflTransGen Proceeds x y) :
    y.1.CancelledAt j := by
  induction hsteps with
  | refl => exact h
  | tail _ hstep ih => exact ih.proceed hstep

end CancelledAt

/-- Once cancel has been called on any clone of a signal, then whatever happens after that, each worker that polls
the signal is cancelled when it generates or saves, on every tree that has a node besides its root. Saving leaves
the storage as it is. -/
theorem cancelled_of_cancels (htree : s.tree.WellFormed) (hj : j < s.signals.length)
    (hcancel : Cancels j (s, d) (s₁, d₁)) (hsteps : Relation.ReflTransGen Proceeds (s₁, d₁) (s₂, d₂))
    (hw : s₂.workers[i]? = some w) (hsignal : w.signal = j) (hsize : 1 < s₂.tree.size) (a : Action)
    (ha : (∃ name, a = .generate name) ∨ ∃ destination, a = .save destination) :
    let run := (s₂.perform i a : StateM σ _).run d₂
    run.1.1 = .failed .cancelled ∧ run.2 = d₂ ∧
      ∃ w', run.1.2.workers[i]? = some w' ∧ w'.phase = .cancelled := by
  intro run
  have hcancelled : s₂.CancelledAt j := (CancelledAt.of_cancels htree hj hcancel).of_proceeds hsteps
  have hallows := Generator.not_allows_visits ((s₂.generator w).writer s₂.tree) hcancelled.tree hsize
  rw [← hcancelled.signalOf hsignal] at hallows
  rcases ha with ⟨name, rfl⟩ | ⟨destination, rfl⟩
  · obtain ⟨hresult, hlast⟩ :=
      Generator.generate_of_not_allows (g := s₂.generator w) hcancelled.tree hallows name
    have hrun : run = _ := perform_generate hw rfl d₂
    rw [hrun, hresult]
    exact ⟨rfl, rfl, _, (getElem?_workers_absorb hw _ i).trans (if_pos rfl), phase_enter hlast⟩
  · obtain ⟨r, hsave, hresult, -⟩ :=
      (s₂.generator w).save_of_not_allows hcancelled.tree hallows destination d₂
    have hlast := Generator.getLast?_phases_finish r
    have hrun : run = _ := perform_save hw hsave
    rw [hresult] at hlast
    rw [hrun, Generator.result_finish, hresult]
    exact ⟨rfl, rfl, _, (getElem?_workers_absorb hw _ i).trans (if_pos rfl), phase_enter hlast⟩

/-- The host cancels the signal that two workers share. One of them reviews a leaf, and the other is cancelled. -/
theorem cancelled_of_cancels_shared :
    let s := start (Draft.empty "Bank").toModel sharedLogin [.default, { Options.default with eager := true }] true
    let disk : Disk := ⟨"/home", [("/home", .directory)]⟩
    let cancelled : Session := { s with signals := s.signals.modify 0 (Signal.request 0) }
    let reviewed := (cancelled.perform 0 (.review 2) : StateM Disk _).run disk
    let saved := (reviewed.1.2.perform 1 (.save "out/BankTest.java") : StateM Disk _).run reviewed.2
    reviewed.1.1 = .failed .cancelled ∧ saved.1.1 = .failed .cancelled ∧ saved.2 = disk ∧
      saved.1.2.workers.map (fun w => w.phases) = [[], [.idle, .traversing, .cancelled]] := by
  intro s disk cancelled reviewed saved
  have hcancelled := cancelled_of_cancels (i := 1) (w := ⟨{ Options.default with eager := true }, 0, []⟩)
    reachable_sharedLogin.wellFormed (by decide) (.outside s disk) (.single (.perform cancelled disk 0 (.review 2)))
    (by decide +kernel) rfl (by decide +kernel) (.save "out/BankTest.java") (.inr ⟨_, rfl⟩)
  exact ⟨by decide +kernel, hcancelled.1, hcancelled.2.1, by decide +kernel⟩

/-- A root alone is not polled for: cancelled before it starts, the run still writes its file. -/
theorem cancel_unseen_at_root :
    let s := start (Draft.empty "Bank").toModel (rooted .standard (.constructor "new") ∅) [.default] false
    let disk : Disk := ⟨"/home", [("/home", .directory)]⟩
    let cancelled := (s.perform 0 .cancel : StateM Disk _).run disk
    let saved := (cancelled.1.2.perform 0 (.save "out/BankTest.java") : StateM Disk _).run cancelled.2
    cancelled.1.1 = .cancelled false true ∧ saved.1.1 = .saved ["out/BankTest.java"] ∧
      saved.1.2.workers.map Worker.phase = [.done] ∧ (saved.2.readText "out/BankTest.java").isSome = true := by
  decide +kernel

end Session

end TestScribe

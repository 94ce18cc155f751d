import TestScribe.Proofs.Run.Generation
import TestScribe.Proofs.Suite.Writing

/-!
# Saving

Saving is generating and then writing (`save_run`): a run that a poll stops touches no storage, and one that
none stops writes what an uncancelled run gives (`save_outcome`). This holds of any storage.
-/

namespace TestScribe

open ExecutionTree

variable {σ : Type} [Storage (StateM σ)]

namespace Generator

variable {tree : ExecutionTree}

theorem save_run (g : Generator) (tree : ExecutionTree) (signal : Signal) (destination : Path) (s : σ) :
    (g.save tree signal destination : StateM σ _).run s =
      let r := g.render tree signal (suiteName destination)
      match r.result with
      | .ok suite =>
        let (result, s) := (suite.write (suiteDirectory destination) : StateM σ _).run s
        (Report.finish ⟨result, r.tree, r.signal, r.phases⟩, s)
      | .error e => (Report.finish ⟨.error e, r.tree, r.signal, r.phases⟩, s) := by
  unfold save
  dsimp only
  cases (g.render tree signal (suiteName destination)).result <;> rfl

/-- Saving leaves of the tree what rendering leaves of it. -/
theorem tree_save (g : Generator) (tree : ExecutionTree) (signal : Signal) (destination : Path) (s : σ) :
    ((g.save tree signal destination : StateM σ _).run s).1.tree =
      (g.render tree signal (suiteName destination)).tree := by
  rw [save_run]
  dsimp only
  split <;> rfl

theorem signal_save (g : Generator) (tree : ExecutionTree) (signal : Signal) (destination : Path) (s : σ) :
    ((g.save tree signal destination : StateM σ _).run s).1.signal =
      (g.render tree signal (suiteName destination)).signal := by
  rw [save_run]
  dsimp only
  split <;> rfl

theorem result_finish {α : Type} (r : Report α) : r.finish.result = r.result :=
  rfl

theorem getLast?_phases_finish {α : Type} (r : Report α) : r.finish.phases.getLast? = some (endPhase r.result) :=
  List.getLast?_concat

theorem save_of_not_allows (g : Generator) (h : tree.WellFormed) {signal : Signal}
    (hallows : signal.allows ((g.writer tree).visits tree).length = false) (destination : Path) (s : σ) :
    ∃ r : Report (List Path), (g.save tree signal destination : StateM σ _).run s = (r.finish, s) ∧
      r.result = .error .cancelled ∧ r.signal = signal.after ((g.writer tree).visits tree).length := by
  rw [save_run, render_eq h, hallows]
  exact ⟨_, rfl, rfl, rfl⟩

/-- A run that no poll stops writes the suite it gives under a quiet signal. -/
theorem save_of_allows (g : Generator) (h : tree.WellFormed) {signal : Signal}
    (hallows : signal.allows ((g.writer tree).visits tree).length = true) (destination : Path) (s : σ) :
    let generated := g.generate tree .quiet (suiteName destination)
    ∃ suite, generated.result = .ok suite ∧
      ∃ (r : Report (List Path)) (s' : σ),
        (g.save tree signal destination : StateM σ _).run s = (r.finish, s') ∧
        (suite.write (suiteDirectory destination) : StateM σ _).run s = (r.result, s') ∧
        r.tree = generated.tree ∧ r.signal = signal.after ((g.writer tree).visits tree).length := by
  rw [generate_eq h, save_run, render_eq h, hallows, Signal.reached_of_allows hallows]
  exact ⟨_, rfl, _, _, rfl, rfl, rfl, rfl⟩

/-- Of a run that comes to `polls` nodes if nothing stops it: when one of its polls sees a request to cancel,
the run ends cancelled and the storage has not been touched. Otherwise it has written the suite that a run
without any request gives, and ends done or failed as the writing did. -/
theorem save_outcome (g : Generator) (h : tree.Reachable) (signal : Signal) (destination : Path) (s : σ) :
    let polls := ((g.writer tree).visits tree).length
    let report := ((g.save tree signal destination : StateM σ _).run s).1
    let s' := ((g.save tree signal destination : StateM σ _).run s).2
    report.signal = signal.after polls ∧
      ((∃ k < polls, (signal.after k).isCancelled = true) →
        report.result = .error .cancelled ∧ report.phases.getLast? = some .cancelled ∧ s' = s) ∧
      ((∀ k < polls, (signal.after k).isCancelled = false) →
        let generated := g.generate tree .quiet (suiteName destination)
        let directory := suiteDirectory destination
        report.tree = generated.tree ∧ ∃ suite, generated.result = .ok suite ∧
          (suite.write directory : StateM σ _).run s = (report.result, s') ∧
          match report.result with
          | .ok paths =>
            paths = suite.files.map (fun f => directory.join f.name) ∧ report.phases.getLast? = some .done
          | .error e =>
            (∃ path, e = .destinationUnavailable path ∨ e = .notWritten path) ∧
              report.phases.getLast? = some .failed) := by
  intro polls report s'
  cases hallows : signal.allows polls with
  | false =>
    obtain ⟨r, hrun, hresult, hsignal⟩ := g.save_of_not_allows h.wellFormed hallows destination s
    obtain ⟨hreport, hs'⟩ : report = r.finish ∧ s' = s := Prod.mk.inj hrun
    rw [hreport, hs', result_finish]
    refine ⟨hsignal, fun _ => ⟨hresult, ?_, rfl⟩, fun hquiet => ?_⟩
    · rw [getLast?_phases_finish, hresult]
      rfl
    · rw [(signal.allows_iff polls).mpr hquiet] at hallows
      cases hallows
  | true =>
    obtain ⟨suite, hsuite, r, s₁, hrun, hwrite, htree, hsignal⟩ :=
      g.save_of_allows h.wellFormed hallows destination s
    obtain ⟨hreport, hs'⟩ : report = r.finish ∧ s' = s₁ := Prod.mk.inj hrun
    rw [hreport, hs', result_finish]
    refine ⟨hsignal, fun ⟨k, hk, hcancelled⟩ => ?_, fun _ => ⟨htree, suite, hsuite, hwrite, ?_⟩⟩
    · rw [(signal.allows_iff polls).mp hallows k hk] at hcancelled
      cases hcancelled
    · have houtcome := suite.writeOutcome_write (suiteDirectory destination) s
      have hlast := getLast?_phases_finish r
      rw [hwrite] at houtcome
      cases hresult : r.result with
      | ok paths =>
        rw [hresult] at houtcome hlast
        cases houtcome
        exact ⟨rfl, hlast⟩
      | error e =>
        rw [hresult] at houtcome hlast
        cases houtcome with
        | notMade path => exact ⟨⟨path, .inl rfl⟩, hlast⟩
        | notWritten path => exact ⟨⟨path, .inr rfl⟩, hlast⟩

/-- The run polls four times: a request before the fourth poll stops it, and one before a fifth is too late. -/
theorem save_outcome_sharedLogin :
    let g : Generator := ⟨(Draft.empty "Bank").toModel, .default⟩
    let disk : Disk := ⟨"/home", [("/home", .directory)]⟩
    let save (signal : Signal) := (g.save sharedLogin signal "out/BankTest.java" : StateM Disk _).run disk
    ((g.writer sharedLogin).visits sharedLogin).length = 4 ∧
      ((save (.cancelAfter 3)).1.result = .error .cancelled ∧ (save (.cancelAfter 3)).2 = disk) ∧
      (save (.cancelAfter 4)).1.tree = (g.generate sharedLogin .quiet "BankTest").tree ∧
      (save (.cancelAfter 4)).1.result.toOption = some ["out/BankTest.java"] ∧
      ((save (.cancelAfter 4)).2.readText "out/BankTest.java").isSome := by
  intro g disk save
  have hpolls : ((g.writer sharedLogin).visits sharedLogin).length = 4 := by decide +kernel
  have hstopped := (save_outcome g reachable_sharedLogin (.cancelAfter 3) "out/BankTest.java" disk).2.1
    ⟨3, by rw [hpolls]; decide, rfl⟩
  have hsaved := (save_outcome g reachable_sharedLogin (.cancelAfter 4) "out/BankTest.java" disk).2.2
    (by rw [hpolls]; decide)
  exact ⟨hpolls, ⟨hstopped.1, hstopped.2.2⟩, hsaved.1, by decide +kernel, by decide +kernel⟩

end Generator

end TestScribe

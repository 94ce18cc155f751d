import TestScribe.Model.Draft
import TestScribe.Proofs.Code.Marking
import TestScribe.Proofs.Code.Sources
import TestScribe.Proofs.Text.Joining

/-!
# Conditions of a step

The code of a clean step checks the conditions that the options choose (`checkedConditions`), between the
check of the marking and the tag. With bindings they are all checked (`oracleCode_of_bindings`), without
bindings none is (`oracleCode_of_no_bindings`). So a step without bindings has the code of one with empty
bindings only where their checks are empty; its input code is always the same (`code_without_bindings`).
-/

namespace TestScribe

namespace StepWriter

variable {w : StepWriter} {testCaseId : String} {s : Step}

/-- The conditions that a clean step checks, each with the way it is checked. -/
def checkedConditions (w : StepWriter) (s : Step) : List (Predicate × Check) :=
  (if w.options.verifyPostconditions then s.transition.postcondition.map (·, .holds) else []) ++
    (if w.dialect.isObjectOriented && w.options.verifyNegatedConditions then
      s.transition.deletePrecondition.map (·, .negated) else []) ++
    (if w.options.verifyEffects then s.transition.effect.map (·, .effect) else [])

/-- The check of an instance of a condition; hidden conditions are not checked. -/
def conditionCheck (w : StepWriter) (testCaseId : String) (b : Bindings) (c : Predicate × Check) : String :=
  if w.model.isHidden c.1.name then "" else w.checkLine testCaseId c.1.name (b.substitute c.1) c.2

/-- The check of the marking of a clean step. -/
def cleanMarkingChecks (w : StepWriter) (testCaseId : String) (s : Step) : String :=
  if !w.options.verifyPostconditions && w.options.verifyMarkings then
    w.markingChecks testCaseId s.marking
  else ""

theorem checkLine_eq_empty_iff {place : String} {t : Tuple} {check : Check} :
    w.checkLine testCaseId place t check = "" ↔ w.checkCode testCaseId place t check = "" := by
  have hline : w.checkLine testCaseId place t check =
      if w.checkCode testCaseId place t check = "" then ""
      else "\n" ++ w.checkCode testCaseId place t check := rfl
  rw [hline]
  split
  · next h => simp [h]
  · next h => simp [h]

theorem conditionCheck_eq_empty_iff {b : Bindings} {c : Predicate × Check} :
    w.conditionCheck testCaseId b c = "" ↔
      w.model.isHidden c.1.name = true ∨
        w.checkCode testCaseId c.1.name (b.substitute c.1) c.2 = "" := by
  unfold conditionCheck
  split
  · next h => simp [h]
  · next h => rw [checkLine_eq_empty_iff, or_iff_right h]

theorem conditionChecks_of_bindings {b : Bindings} (hb : s.bindings = some b)
    (conditions : List Predicate) (check : Check) :
    w.conditionChecks testCaseId s conditions check =
      String.join ((conditions.map (·, check)).map (w.conditionCheck testCaseId b)) := by
  have hvisible : ∀ p ∈ conditions.filter (fun p => !w.model.isHidden p.name),
      w.checkLine testCaseId p.name (b.substitute p) check = w.conditionCheck testCaseId b (p, check) := by
    intro p hp
    have h : ¬ w.model.isHidden p.name = true := by simpa using (List.mem_filter.mp hp).2
    rw [conditionCheck, if_neg h]
  rw [conditionChecks, hb]
  simp only
  rw [List.map_congr_left hvisible, Text.join_map_filter, List.map_map]
  · rfl
  · intro p _ hp
    exact if_pos (by simpa using hp)

theorem conditionChecks_of_no_bindings (hb : s.bindings = none) (conditions : List Predicate)
    (check : Check) : w.conditionChecks testCaseId s conditions check = "" := by
  rw [conditionChecks, hb]

theorem oracleCode_of_bindings {b : Bindings} (hsilent : w.isSilent s.event = false)
    (hclean : s.negative = false) (hb : s.bindings = some b) :
    w.oracleCode testCaseId s =
      w.cleanMarkingChecks testCaseId s ++
        String.join ((w.checkedConditions s).map (w.conditionCheck testCaseId b)) ++ w.inlineTag s := by
  rw [oracleCode_of_clean hsilent hclean]
  unfold stateChecks deletionChecks effectChecks cleanMarkingChecks checkedConditions
  simp only [conditionChecks_of_bindings hb, List.map_append, String.join_append]
  cases w.options.verifyPostconditions <;> cases w.options.verifyMarkings <;>
    cases (w.dialect.isObjectOriented && w.options.verifyNegatedConditions) <;>
    cases w.options.verifyEffects <;> simp [String.append_assoc]

theorem oracleCode_of_no_bindings (hsilent : w.isSilent s.event = false) (hclean : s.negative = false)
    (hb : s.bindings = none) :
    w.oracleCode testCaseId s = w.cleanMarkingChecks testCaseId s ++ w.inlineTag s := by
  rw [oracleCode_of_clean hsilent hclean]
  unfold stateChecks deletionChecks effectChecks cleanMarkingChecks
  simp only [conditionChecks_of_no_bindings hb]
  cases w.options.verifyPostconditions <;> cases w.options.verifyMarkings <;> simp

/-! ### Steps without bindings -/

theorem inputCode_without_bindings (w : StepWriter) (testCaseId : String) (s : Step) :
    w.inputCode testCaseId { s with bindings := none } =
      w.inputCode testCaseId { s with bindings := some ∅ } := by
  have hfiring : w.firing { s with bindings := none } = w.firing { s with bindings := some ∅ } := by
    rw [firing_of_unbound (.inl rfl), firing_of_unbound (.inr rfl)]
  have hsource : w.source { s with bindings := none } = w.source { s with bindings := some ∅ } := by
    unfold source
    rw [hfiring]
  have haction : w.inputAction { s with bindings := none } = w.inputAction { s with bindings := some ∅ } :=
    inputAction_congr rfl rfl rfl (bareAction_congr rfl rfl rfl hsource)
  have hplain : w.plainInput { s with bindings := none } = w.plainInput { s with bindings := some ∅ } := by
    unfold plainInput
    rw [haction]
    rfl
  unfold inputCode
  rw [hplain]

theorem oracleCode_without_bindings (hsilent : w.isSilent s.event = false) (hclean : s.negative = false) :
    w.oracleCode testCaseId { s with bindings := none } =
        w.oracleCode testCaseId { s with bindings := some ∅ } ↔
      ∀ c ∈ w.checkedConditions s, w.conditionCheck testCaseId ∅ c = "" := by
  have habsent : w.oracleCode testCaseId { s with bindings := none } =
      w.cleanMarkingChecks testCaseId s ++ w.inlineTag s :=
    oracleCode_of_no_bindings hsilent hclean rfl
  have hempty : w.oracleCode testCaseId { s with bindings := some ∅ } =
      w.cleanMarkingChecks testCaseId s ++
        String.join ((w.checkedConditions s).map (w.conditionCheck testCaseId ∅)) ++ w.inlineTag s :=
    oracleCode_of_bindings hsilent hclean rfl
  rw [habsent, hempty, String.append_left_inj, eq_comm, String.append_eq_left_iff,
    Text.join_eq_empty_iff, List.forall_mem_map]

/-- A step without bindings has the input code of one with empty bindings. It has the same oracle code exactly if
it is silent or negative, or no condition that the options choose has a check under empty bindings. -/
theorem code_without_bindings (w : StepWriter) (testCaseId : String) (s : Step) :
    let absent : Step := { s with bindings := none }
    let empty : Step := { s with bindings := some ∅ }
    w.inputCode testCaseId absent = w.inputCode testCaseId empty ∧
      (w.oracleCode testCaseId absent = w.oracleCode testCaseId empty ↔
        w.isSilent s.event = true ∨ s.negative = true ∨
          ∀ c ∈ w.checkedConditions s, w.model.isHidden c.1.name = true ∨
            w.checkCode testCaseId c.1.name (Bindings.substitute ∅ c.1) c.2 = "") := by
  intro absent empty
  refine ⟨w.inputCode_without_bindings testCaseId s, ?_⟩
  cases hsilent : w.isSilent s.event with
  | true =>
    have habsent : w.oracleCode testCaseId absent = "" := oracleCode_of_silent hsilent
    have hempty : w.oracleCode testCaseId empty = "" := oracleCode_of_silent hsilent
    simp [habsent, hempty]
  | false =>
    cases hnegative : s.negative with
    | true =>
      -- A negative step is checked by its marking alone.
      have hcode : w.oracleCode testCaseId absent = w.oracleCode testCaseId empty := by
        rw [oracleCode_of_negative (s := absent) hsilent hnegative,
          oracleCode_of_negative (s := empty) hsilent hnegative]
      simp [hcode]
    | false =>
      rw [oracleCode_without_bindings hsilent hnegative]
      simp only [conditionCheck_eq_empty_iff]
      simp

/-- A condition without variables is checked under empty bindings, and is not checked without bindings. -/
theorem oracleCode_loses_ground_condition :
    ∃ m : Model,
      Model.ofDeclarations "Shop" [.mapping .accessor "open(X)" "isOpen(X)",
        .transition { Transition.named "start" with postcondition := [⟨"open", [.const "shop"]⟩] }] = .ok m ∧
      let w : StepWriter := ⟨m, .default, .objectOrientedSystem, .forLanguage .java⟩
      let s : Step := .firing { Transition.named "start" with postcondition := [⟨"open", [.const "shop"]⟩] }
      w.oracleCode "1" { s with bindings := some ∅ } = "\n\t\tassertTrue(\"1\", isOpen(shop));" ∧
        w.oracleCode "1" { s with bindings := none } = "" := by
  refine ⟨_, rfl, ?_⟩
  intro w s
  exact ⟨by decide +kernel, by decide +kernel⟩

end StepWriter

end TestScribe

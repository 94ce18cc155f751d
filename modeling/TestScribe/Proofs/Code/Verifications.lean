import TestScribe.Model.Draft
import TestScribe.Proofs.Code.Conditions
import TestScribe.Proofs.Code.GoalTags

/-!
# Verifications on their own

The options switch verifications on and off one by one. Each verification has a segment of the oracle code of
a clean step that no other verification shows in (`segment_withVerifications`), and the oracle code is the
segments of those that are on, in a fixed order (`oracleCode_eq_segments`). So it can be put together from the
codes that the step has with one verification at a time (`oracleCode_only`, `oracleCode_verifications`).
-/

namespace TestScribe

/-- What the options have verified in oracle code. -/
inductive Verification
  | postconditions
  | markings
  | negatedConditions
  | effects
  | dirtyTestState
  | goalTags
deriving DecidableEq, Repr

/-- The conditions of a transition that are verified, and the way they are checked. -/
def Verification.conditions (t : Transition) : Verification → Option (List Predicate × Check)
  | .postconditions => some (t.postcondition, .holds)
  | .negatedConditions => some (t.deletePrecondition, .negated)
  | .effects => some (t.effect, .effect)
  | .markings | .dirtyTestState | .goalTags => none

namespace Options

def verifies (o : Options) : Verification → Bool
  | .postconditions => o.verifyPostconditions
  | .markings => o.verifyMarkings
  | .negatedConditions => o.verifyNegatedConditions
  | .effects => o.verifyEffects
  | .dirtyTestState => o.verifyDirtyTestState
  | .goalTags => o.createGoalTags

def withVerifications (o : Options) (on : Verification → Bool) : Options :=
  { o with
    verifyPostconditions := on .postconditions
    verifyMarkings := on .markings
    verifyNegatedConditions := on .negatedConditions
    verifyEffects := on .effects
    verifyDirtyTestState := on .dirtyTestState
    createGoalTags := on .goalTags }

/-- Every other verification is switched off; this one stays as it is. -/
def only (o : Options) (v : Verification) : Options :=
  o.withVerifications fun v' => v' == v && o.verifies v'

/-- What is verified of a clean step, in the order of the code. The marking stands in for the
postconditions where these are off. -/
def cleanVerifications (o : Options) : List Verification :=
  [if o.verifyPostconditions then .postconditions else .markings, .negatedConditions, .effects, .goalTags]

variable {o : Options} {on : Verification → Bool} {v v' : Verification}

@[simp]
theorem verifies_withVerifications : (o.withVerifications on).verifies v = on v := by
  cases v <;> rfl

theorem verifies_only : (o.only v).verifies v' = (v' == v && o.verifies v') :=
  verifies_withVerifications

end Options

namespace StepWriter

variable {w : StepWriter} {testCaseId : String} {s : Step} {v : Verification}

def withVerifications (w : StepWriter) (on : Verification → Bool) : StepWriter :=
  { w with options := w.options.withVerifications on }

def only (w : StepWriter) (v : Verification) : StepWriter :=
  { w with options := w.options.only v }

/-! ### Segments -/

/-- The code that a verification has in the oracle code of a clean step if it is on. -/
def segment (w : StepWriter) (testCaseId : String) (s : Step) : Verification → String
  | .postconditions => w.conditionChecks testCaseId s s.transition.postcondition .holds
  | .markings => w.markingChecks testCaseId s.marking
  | .negatedConditions =>
    if w.dialect.isObjectOriented then
      w.conditionChecks testCaseId s s.transition.deletePrecondition .negated
    else ""
  | .effects => w.conditionChecks testCaseId s s.transition.effect .effect
  | .dirtyTestState => ""
  | .goalTags =>
    if w.options.tagTemplate != "" && w.options.tagPlacement == .inline then
      goalTag (goalsHere w.model.goals s.marking) w.options w.margin
    else ""

/-- The segment where the verification is on. -/
def segmentIfOn (w : StepWriter) (testCaseId : String) (s : Step) (v : Verification) : String :=
  if w.options.verifies v then w.segment testCaseId s v else ""

theorem segment_withVerifications (w : StepWriter) (on : Verification → Bool) :
    (w.withVerifications on).segment testCaseId s v = w.segment testCaseId s v := by
  cases v <;> rfl

theorem segmentIfOn_only (w : StepWriter) (testCaseId : String) (s : Step) (v v' : Verification) :
    (w.only v).segmentIfOn testCaseId s v' = if v' = v then w.segmentIfOn testCaseId s v' else "" := by
  have hverifies : (w.only v).options.verifies v' = (v' == v && w.options.verifies v') := Options.verifies_only
  have hsegment : (w.only v).segment testCaseId s v' = w.segment testCaseId s v' := w.segment_withVerifications _
  rw [segmentIfOn, hverifies, hsegment]
  by_cases h : v' = v
  · rw [if_pos h, h, BEq.rfl, Bool.true_and, segmentIfOn]
  · rw [if_neg h, beq_false_of_ne h, Bool.false_and, if_neg Bool.false_ne_true]

theorem inlineTag_eq_segmentIfOn (w : StepWriter) (testCaseId : String) (s : Step) :
    w.inlineTag s = w.segmentIfOn testCaseId s .goalTags := by
  have hinline : w.options.tagsInline =
      (w.options.createGoalTags && (w.options.tagTemplate != "" && w.options.tagPlacement == .inline)) := by
    rw [Options.tagsInline, Options.hasTagTemplate, Bool.and_assoc]
  rw [inlineTag, hinline]
  unfold segmentIfOn segment Options.verifies
  cases w.options.createGoalTags <;> rfl

@[simp]
theorem segmentIfOn_dirtyTestState : w.segmentIfOn testCaseId s .dirtyTestState = "" :=
  ite_self _

theorem oracleCode_eq_segments (hsilent : w.isSilent s.event = false) (hclean : s.negative = false) :
    w.oracleCode testCaseId s =
      String.join (w.options.cleanVerifications.map (w.segmentIfOn testCaseId s)) := by
  have hstate : w.stateChecks testCaseId s =
      w.segmentIfOn testCaseId s (if w.options.verifyPostconditions then .postconditions else .markings) := by
    unfold stateChecks segmentIfOn segment Options.verifies
    cases w.options.verifyPostconditions <;> rfl
  have hdeletion : w.deletionChecks testCaseId s = w.segmentIfOn testCaseId s .negatedConditions := by
    unfold deletionChecks segmentIfOn segment Options.verifies
    cases w.dialect.isObjectOriented <;> cases w.options.verifyNegatedConditions <;> rfl
  rw [oracleCode_of_clean hsilent hclean, hstate, hdeletion, w.inlineTag_eq_segmentIfOn testCaseId]
  show _ ++ w.segmentIfOn testCaseId s .effects ++ _ = _
  simp [Options.cleanVerifications, String.append_assoc]

/-- With one verification at a time, the code is its segment. -/
theorem oracleCode_only (hsilent : w.isSilent s.event = false) (hclean : s.negative = false)
    (v : Verification) : (w.only v).oracleCode testCaseId s = w.segmentIfOn testCaseId s v := by
  have hpostconditions : (w.only v).options.verifyPostconditions =
      (.postconditions == v && w.options.verifyPostconditions) := rfl
  have hsilent' : (w.only v).isSilent s.event = false := hsilent
  rw [oracleCode_eq_segments hsilent' hclean, funext (w.segmentIfOn_only testCaseId s v),
    Options.cleanVerifications, hpostconditions]
  cases v with
  | postconditions =>
    cases hon : w.options.verifyPostconditions with
    | true => simp
    | false =>
      -- The marking stands in, but it is off as well.
      have hoff : w.segmentIfOn testCaseId s .postconditions = "" := by
        rw [segmentIfOn, Options.verifies, hon, if_neg Bool.false_ne_true]
      simp [hoff]
  | markings => simp
  | negatedConditions => simp
  | effects => simp
  | dirtyTestState => simp
  | goalTags => simp

/-! ### The lines of a segment -/

/-- The lines that check instances of conditions, in the order of the conditions. -/
def conditionLines (w : StepWriter) (testCaseId : String) (b : Bindings) (conditions : List Predicate)
    (check : Check) : List String :=
  let checked := conditions.filter fun p =>
    !w.model.isHidden p.name && w.checkCode testCaseId p.name (b.substitute p) check != ""
  checked.map fun p => "\n" ++ w.checkCode testCaseId p.name (b.substitute p) check

theorem conditionChecks_eq_join_conditionLines {b : Bindings} (hb : s.bindings = some b)
    (conditions : List Predicate) (check : Check) :
    w.conditionChecks testCaseId s conditions check =
      String.join (w.conditionLines testCaseId b conditions check) := by
  have hline : ∀ p ∈ conditions.filter (fun p =>
      !w.model.isHidden p.name && w.checkCode testCaseId p.name (b.substitute p) check != ""),
      "\n" ++ w.checkCode testCaseId p.name (b.substitute p) check = w.conditionCheck testCaseId b (p, check) := by
    intro p hp
    have hshown := (List.mem_filter.mp hp).2
    rw [Bool.and_eq_true, Bool.not_eq_true', bne_iff_ne] at hshown
    rw [conditionCheck, if_neg (Bool.eq_false_iff.mp hshown.1)]
    exact (if_neg hshown.2).symm
  rw [conditionChecks_of_bindings hb, conditionLines, List.map_congr_left hline, Text.join_map_filter, List.map_map]
  · rfl
  · intro p _ hp
    rw [Bool.and_eq_false_iff, Bool.not_eq_false', bne_eq_false_iff_eq] at hp
    exact conditionCheck_eq_empty_iff.mpr hp

/-- The writer makes the verification if it is on; negated conditions are for object-oriented tests only. -/
def verifies (w : StepWriter) (v : Verification) : Bool :=
  w.options.verifies v && (v != .negatedConditions || w.dialect.isObjectOriented)

theorem segmentIfOn_of_conditions {b : Bindings} (hb : s.bindings = some b) {conditions : List Predicate}
    {check : Check} (hv : v.conditions s.transition = some (conditions, check)) :
    w.segmentIfOn testCaseId s v =
      if w.verifies v then String.join (w.conditionLines testCaseId b conditions check) else "" := by
  rw [← conditionChecks_eq_join_conditionLines hb]
  unfold verifies segmentIfOn segment
  cases v with
  | postconditions =>
    cases hv
    simp
  | negatedConditions =>
    cases hv
    cases w.dialect.isObjectOriented <;> simp
  | effects =>
    cases hv
    simp
  | markings => cases hv
  | dirtyTestState => cases hv
  | goalTags => cases hv

/-- The oracle code of a clean step is put together from the codes that it has with one verification at a time:
postconditions or else the marking, negated conditions, effects, goal tags. With bindings, the code for
conditions lists a line for each visible one that has code. A negative step is checked by its marking or not at
all, whatever else the options verify and whatever its transition says. -/
theorem oracleCode_verifications (testCaseId : String) (hsilent : w.isSilent s.event = false) :
    let alone (v : Verification) : String := (w.only v).oracleCode testCaseId s
    (s.negative = false →
      w.oracleCode testCaseId s =
          alone (if w.options.verifyPostconditions then .postconditions else .markings) ++
            alone .negatedConditions ++ alone .effects ++ alone .goalTags ∧
        alone .markings = (if w.options.verifyMarkings then w.markingChecks testCaseId s.marking else "") ∧
        (w.dialect.isObjectOriented = false → alone .negatedConditions = "") ∧
        alone .goalTags = w.inlineTag s ∧
        ∀ b v conditions check, s.bindings = some b →
          v.conditions s.transition = some (conditions, check) →
          alone v =
            if w.verifies v then String.join (w.conditionLines testCaseId b conditions check) else "") ∧
      (s.negative = true →
        w.oracleCode testCaseId s =
            (if w.options.verifyDirtyTestState then w.markingChecks testCaseId s.marking else "") ∧
          ∀ (on : Verification → Bool) (t : Transition), on .dirtyTestState = w.options.verifyDirtyTestState →
            (w.withVerifications on).oracleCode testCaseId { s with transition := t } =
              w.oracleCode testCaseId s) := by
  intro alone
  constructor
  · intro hclean
    have halone : ∀ v, alone v = w.segmentIfOn testCaseId s v := oracleCode_only hsilent hclean
    refine ⟨?_, halone .markings, ?_, ?_, ?_⟩
    · rw [oracleCode_eq_segments hsilent hclean, ← funext halone]
      simp [Options.cleanVerifications, String.append_assoc]
    · intro hdialect
      rw [halone, segmentIfOn, segment, hdialect, if_neg Bool.false_ne_true, ite_self]
    · exact (halone .goalTags).trans (w.inlineTag_eq_segmentIfOn testCaseId s).symm
    · intro b v conditions check hb hv
      rw [halone, segmentIfOn_of_conditions hb hv]
  · intro hnegative
    refine ⟨oracleCode_of_negative hsilent hnegative, fun on t hon => ?_⟩
    have hsilent' : (w.withVerifications on).isSilent s.event = false := hsilent
    have hcode : (w.withVerifications on).oracleCode testCaseId { s with transition := t } =
        if on .dirtyTestState then w.markingChecks testCaseId s.marking else "" :=
      oracleCode_of_negative hsilent' hnegative
    rw [hcode, oracleCode_of_negative hsilent hnegative, hon]

/-- A withdrawal with all conditions verified and its goal tagged: the place of the log is hidden, and the marking
is not checked. -/
theorem oracleCode_verifications_withdrawal :
    let withdraw : Transition :=
      { Transition.named "withdraw" with
        postcondition := [⟨"balance", [.var "A", .const "0"]⟩, ⟨"log", [.var "A"]⟩]
        deletePrecondition := [⟨"balance", [.var "A", .const "100"]⟩]
        effect := [⟨"open", [.var "A"]⟩] }
    ∃ m : Model,
      Model.ofDeclarations "Bank" [.hidden "log", .mapping .accessor "balance(X, Y)" "getBalance(X)==Y",
        .mapping .accessor "open(X)" "isOpen(X)", .goal ⟨"limit", [⟨"balance", [.var "A", .const "0"]⟩], []⟩,
        .transition withdraw] = .ok m ∧
      let w : StepWriter :=
        ⟨m, (Options.thorough .java).withGoalTags "// [NAME]" .inline, .objectOriented, .forLanguage .java⟩
      let s : Step :=
        { Step.firing withdraw with
          bindings := some (Dict.ofList [("A", "acc1")])
          marking := Dict.ofList [("balance", [["acc1", "0"]])] }
      let alone (v : Verification) : String := (w.only v).oracleCode "1" s
      w.isSilent s.event = false ∧
        w.oracleCode "1" s =
          alone .postconditions ++ alone .negatedConditions ++ alone .effects ++ alone .goalTags ∧
        alone .postconditions = "\n\t\tassertTrue(\"1\", getBalance(acc1)==0);" ∧
        alone .negatedConditions = "\n\t\tassertFalse(\"1\", getBalance(acc1)==100);" ∧
        alone .effects = "\n\t\tisOpen(acc1);" ∧
        alone .goalTags = "\n\t\t// limit" := by
  intro withdraw
  refine ⟨_, rfl, ?_⟩
  intro w s alone
  have hsilent : w.isSilent s.event = false := by decide +kernel
  have hcode := ((oracleCode_verifications "1" hsilent).1 rfl).1
  exact ⟨hsilent, hcode, by decide +kernel, by decide +kernel, by decide +kernel, by decide +kernel⟩

end StepWriter

end TestScribe

import TestScribe.Proofs.Code.GoalTags
import TestScribe.Proofs.Code.Marking
import TestScribe.Proofs.Code.Sources
import TestScribe.Proofs.Model.Hidden

/-!
# Hidden names in the code of steps

Whatever code a step has, its look-ups are of visible names: silent events have no code, hidden places are left
out of the checks, and options are never hidden. So models that are the same but for what they hide give the same
code (`inputCode_withModel`, `oracleCode_withModel`), and so do steps whose markings differ in hidden places only,
unless a goal looks into one (`oracleCode_of_sameButHiddenTuples`).
-/

namespace TestScribe

namespace Model

variable {m m' : Model}

namespace SameButHidden

variable {name : String}

theorem isHidden_eq (h : m.SameButHidden m') : m'.isHidden = m.isHidden := by
  funext name
  rw [isHidden, isHidden, h.hidden]

theorem isConstructor_eq (h : m.SameButHidden m') : m'.isConstructor = m.isConstructor := by
  funext event
  rw [isConstructor, isConstructor, h.constructorEvent]

theorem objectFor_eq (h : m.SameButHidden m') : m'.objectFor = m.objectFor := by
  funext value
  rw [objectFor, objectFor, object?, object?, h.objects]

theorem resolve_eq (h : m.SameButHidden m') (hname : m.isHidden name = false) (kind : MappingKind) (t : Tuple) :
    m'.resolve kind name t = m.resolve kind name t :=
  resolve_congr (h.mappingsOf kind name hname).symm (fun _ => h.objects.symm) t

end SameButHidden

/-- The steps differ in nothing but the tuples that their markings hold in hidden places. -/
structure SameButHiddenTuples (m : Model) (s s' : Step) : Prop where
  step : { s with marking := s'.marking } = s'
  tuples : ∀ place, m.isHidden place = false → s.marking.tuples place = s'.marking.tuples place

/-- No goal names a hidden place. -/
def GoalsVisible (m : Model) : Prop :=
  ∀ goal ∈ m.goals, ∀ p ∈ goal.condition ++ goal.negated, m.isHidden p.name = false

theorem SameButHiddenTuples.satisfies {s s' : Step} (h : m.SameButHiddenTuples s s') (hgoals : m.GoalsVisible)
    {goal : Goal} (hgoal : goal ∈ m.goals) : s.marking.satisfies goal = s'.marking.satisfies goal :=
  Marking.satisfies_congr fun p hp => h.tuples p.name (hgoals goal hgoal p hp)

end Model

namespace StepWriter

variable {w : StepWriter} {m : Model} {testCaseId place : String} {s s' : Step}

def withModel (w : StepWriter) (m : Model) : StepWriter :=
  { w with model := m }

@[simp]
theorem model_withModel (w : StepWriter) (m : Model) : (w.withModel m).model = m := rfl

/-! ### Another model -/

theorem isSilent_withModel (h : w.model.SameButHidden m) : (w.withModel m).isSilent = w.isSilent := by
  funext event
  show (m.isHidden event || m.isConstructor event) = _
  rw [h.isHidden_eq, h.isConstructor_eq]
  rfl

theorem source_withModel (h : w.model.SameButHidden m) (s : Step) : (w.withModel m).source s = w.source s := by
  have hspecification :
      (w.withModel m).model.specificationParameters s.event = w.model.specificationParameters s.event := by
    rw [Model.specificationParameters, Model.specificationParameters, h.parameters]
    rfl
  have hobject : (w.withModel m).model.objectFor = w.model.objectFor := h.objectFor_eq
  have hfiring : (w.withModel m).firing s = w.firing s := by
    have hactual : (w.withModel m).actualParameters s = w.actualParameters s := by
      funext b
      rw [actualParameters, actualParameters, hobject]
    rw [firing, firing, hactual]
  rw [source, source, hspecification, hobject, hfiring]
  rfl

theorem inputAction_withModel (h : w.model.SameButHidden m) (hevent : w.model.isHidden s.event = false) :
    (w.withModel m).inputAction s = w.inputAction s :=
  inputAction_congr rfl rfl h.systemName.symm <|
    bareAction_congr (h.mappingsOf .action s.event hevent).symm rfl rfl (source_withModel h s)

/-- The set-up of options does not leave out hidden places itself, but there are none among the options. -/
theorem optionSetup_withModel (h : w.model.SameButHidden m)
    (hoptions : w.model.OptionsVisible) (s : Step) : (w.withModel m).optionSetup s = w.optionSetup s := by
  have hoption : m.isOption = w.model.isOption := by
    funext place
    rw [Model.isOption, Model.isOption, h.options]
  unfold optionSetup
  rw [model_withModel, hoption]
  refine congrArg String.join (List.map_congr_left fun p hp => ?_)
  have hplace := hoptions p.name (by simpa using (List.mem_filter.mp hp).2)
  rw [h.resolve_eq hplace]
  rfl

theorem inputCode_withModel (h : w.model.SameButHidden m) (hoptions : w.model.OptionsVisible)
    (testCaseId : String) (s : Step) : (w.withModel m).inputCode testCaseId s = w.inputCode testCaseId s := by
  unfold inputCode
  rw [isSilent_withModel h]
  split
  · rfl
  · next hsilent =>
    have hevent : w.model.isHidden s.event = false := by
      rw [isSilent, Bool.or_eq_true, not_or] at hsilent
      exact Bool.eq_false_iff.mpr hsilent.1
    have hplain : (w.withModel m).plainInput s = w.plainInput s := by
      unfold plainInput
      rw [optionSetup_withModel h hoptions, inputAction_withModel h hevent]
      rfl
    rw [hplain]
    rfl

theorem checkLine_withModel (h : w.model.SameButHidden m) (hplace : w.model.isHidden place = false)
    (testCaseId : String) (t : Tuple) (check : Check) :
    (w.withModel m).checkLine testCaseId place t check = w.checkLine testCaseId place t check := by
  unfold checkLine checkCode
  rw [model_withModel, h.resolve_eq hplace]
  rfl

theorem markingChecks_withModel (h : w.model.SameButHidden m) (testCaseId : String) (marking : Marking) :
    (w.withModel m).markingChecks testCaseId marking = w.markingChecks testCaseId marking := by
  have hvisible : (m.places.filter fun place => !m.isHidden place) =
      w.model.places.filter fun place => !w.model.isHidden place := h.visiblePlaces.symm
  unfold markingChecks
  rw [model_withModel, hvisible]
  refine congrArg String.join (List.map_congr_left fun place hplace => ?_)
  have hplace := (List.mem_filter.mp hplace).2
  rw [Bool.not_eq_true'] at hplace
  exact congrArg String.join (List.map_congr_left fun t _ => checkLine_withModel h hplace testCaseId t .holds)

theorem conditionChecks_withModel (h : w.model.SameButHidden m) (testCaseId : String) (s : Step)
    (conditions : List Predicate) (check : Check) :
    (w.withModel m).conditionChecks testCaseId s conditions check =
      w.conditionChecks testCaseId s conditions check := by
  unfold conditionChecks
  cases s.bindings with
  | none => rfl
  | some b =>
    rw [model_withModel, h.isHidden_eq]
    refine congrArg String.join (List.map_congr_left fun p hp => ?_)
    have hplace := (List.mem_filter.mp hp).2
    rw [Bool.not_eq_true'] at hplace
    exact checkLine_withModel h hplace testCaseId _ check

theorem inlineTag_withModel (h : w.model.SameButHidden m) : (w.withModel m).inlineTag = w.inlineTag := by
  funext s
  unfold inlineTag withModel
  rw [h.goals]

theorem oracleCode_withModel (h : w.model.SameButHidden m) (testCaseId : String) (s : Step) :
    (w.withModel m).oracleCode testCaseId s = w.oracleCode testCaseId s := by
  have hconditions : (w.withModel m).conditionChecks testCaseId s = w.conditionChecks testCaseId s := by
    funext conditions check
    exact conditionChecks_withModel h testCaseId s conditions check
  unfold oracleCode stateChecks deletionChecks effectChecks
  rw [isSilent_withModel h, hconditions, markingChecks_withModel h, inlineTag_withModel h]
  rfl

/-! ### Other tuples in hidden places -/

theorem oracleCode_of_sameButHiddenTuples (h : w.model.SameButHiddenTuples s s')
    (htags : w.options.hasTagTemplate = false ∨ w.model.GoalsVisible) (testCaseId : String) :
    w.oracleCode testCaseId s' = w.oracleCode testCaseId s := by
  have hchecks : w.markingChecks testCaseId s'.marking = w.markingChecks testCaseId s.marking :=
    markingChecks_congr fun place _ hplace => (h.tuples place hplace).symm
  have htag : w.inlineTag s' = w.inlineTag s := by
    unfold inlineTag goalsHere
    split
    · next hinline =>
      -- A tag needs a template, and with one every goal looks at visible places only.
      rcases htags with hnone | hgoals
      · rw [Options.tagsInline_of_no_template hnone] at hinline
        cases hinline
      · have hfilter : (w.model.goals.filter fun g => g.name != defaultGoal && s'.marking.satisfies g) =
            w.model.goals.filter fun g => g.name != defaultGoal && s.marking.satisfies g :=
          List.filter_congr fun g hg => by rw [h.satisfies hgoals hg]
        rw [hfilter]
    · rfl
  rw [oracleCode, oracleCode, stateChecks, stateChecks, hchecks, htag, ← h.step]
  rfl

end StepWriter

end TestScribe

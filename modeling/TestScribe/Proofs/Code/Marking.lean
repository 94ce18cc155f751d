import TestScribe.Code.Oracle
import TestScribe.Proofs.Model.Declared
import TestScribe.Proofs.Text.Joining

/-!
# The check of a marking

What the oracle code of a step checks depends on the kind of the step (`oracleCode_of_negative`,
`oracleCode_of_clean`). `ChecksMarking` says that code checks a whole marking: each visible place that holds
tuples once, with all of them in order. The check runs through the places of the model, so it is whole for
markings over these places, and it does not see the tuples of any other place
(`oracleCode_of_verifiesMarking`).
-/

namespace TestScribe

namespace Marking

/-- Tuples put into one place leave every other place as it was. -/
theorem tuples_insert_of_ne (m : Marking) {place other : String} (h : place ≠ other)
    (tuples : List Tuple) : Marking.tuples (m.insert place tuples) other = m.tuples other := by
  unfold Marking.tuples
  rw [Dict.get?_insert, if_neg h]

end Marking

namespace StepWriter

variable {w : StepWriter} {testCaseId : String} {s : Step} {m m' : Marking}

/-! ### The oracle code of each kind of step -/

theorem oracleCode_of_silent (h : w.isSilent s.event = true) : w.oracleCode testCaseId s = "" :=
  if_pos h

theorem oracleCode_of_negative (hsilent : w.isSilent s.event = false) (hnegative : s.negative = true) :
    w.oracleCode testCaseId s =
      if w.options.verifyDirtyTestState then w.markingChecks testCaseId s.marking else "" := by
  rw [oracleCode, hsilent, hnegative]
  rfl

theorem oracleCode_of_clean (hsilent : w.isSilent s.event = false) (hclean : s.negative = false) :
    w.oracleCode testCaseId s =
      w.stateChecks testCaseId s ++ w.deletionChecks testCaseId s ++ w.effectChecks testCaseId s ++
        w.inlineTag s := by
  rw [oracleCode, hsilent, hclean]
  rfl

/-! ### The check of a marking -/

/-- The oracle code of the step begins with the check of its marking. -/
def VerifiesMarking (w : StepWriter) (s : Step) : Prop :=
  w.isSilent s.event = false ∧
    if s.negative then w.options.verifyDirtyTestState = true
    else w.options.verifyPostconditions = false ∧ w.options.verifyMarkings = true

/-- The lines that check the tuples of a place, in their order. -/
def placeLines (w : StepWriter) (testCaseId : String) (m : Marking) (place : String) : List String :=
  (m.tuples place).map fun t => w.checkLine testCaseId place t .holds

/-- The code checks every visible place that holds tuples, each once and with all its tuples, and nothing
else. -/
def ChecksMarking (w : StepWriter) (testCaseId : String) (m : Marking) (code : String) : Prop :=
  ∃ places : List String, places.Nodup ∧
    (∀ place, place ∈ places ↔ w.model.isHidden place = false ∧ m.tuples place ≠ []) ∧
    code = String.join (places.flatMap (w.placeLines testCaseId m))

theorem markingChecks_eq (w : StepWriter) (testCaseId : String) (m : Marking) :
    w.markingChecks testCaseId m =
      String.join ((w.model.places.filter fun place => !w.model.isHidden place).map fun place =>
        String.join (w.placeLines testCaseId m place)) :=
  rfl

/-- Only the tuples of the model's visible places count. -/
theorem markingChecks_congr
    (h : ∀ place ∈ w.model.places, w.model.isHidden place = false → m.tuples place = m'.tuples place) :
    w.markingChecks testCaseId m = w.markingChecks testCaseId m' := by
  rw [markingChecks_eq, markingChecks_eq]
  refine congrArg String.join (List.map_congr_left fun place hplace => ?_)
  obtain ⟨hmem, hvisible⟩ := List.mem_filter.mp hplace
  unfold placeLines
  rw [h place hmem (by simpa using hvisible)]

theorem checksMarking_markingChecks (hnodup : w.model.places.Nodup)
    (hplaces : ∀ place, w.model.isHidden place = false → m.tuples place ≠ [] → place ∈ w.model.places) :
    w.ChecksMarking testCaseId m (w.markingChecks testCaseId m) := by
  let visible := w.model.places.filter fun place => !w.model.isHidden place
  refine ⟨visible.filter m.hasTuples, (hnodup.filter _).filter _, fun place => ?_, ?_⟩
  · rw [List.mem_filter, List.mem_filter, Marking.hasTuples]
    simp only [Bool.not_eq_true', List.isEmpty_eq_false_iff]
    constructor
    · rintro ⟨⟨-, hvisible⟩, hholds⟩
      exact ⟨hvisible, hholds⟩
    · rintro ⟨hvisible, hholds⟩
      exact ⟨⟨hplaces place hvisible hholds, hvisible⟩, hholds⟩
  · -- A place without tuples has no lines.
    have hempty : ∀ place ∈ visible, m.hasTuples place = false →
        String.join (w.placeLines testCaseId m place) = "" := by
      intro place _ hholds
      have htuples : m.tuples place = [] := by simpa [Marking.hasTuples] using hholds
      rw [placeLines, htuples]
      rfl
    rw [Text.join_flatMap, Text.join_map_filter visible hempty, markingChecks_eq]

theorem oracleCode_eq_of_verifiesMarking (h : w.VerifiesMarking s) :
    w.oracleCode testCaseId s =
      w.markingChecks testCaseId s.marking ++
        if s.negative then ""
        else w.deletionChecks testCaseId s ++ w.effectChecks testCaseId s ++ w.inlineTag s := by
  obtain ⟨hsilent, hverified⟩ := h
  cases hnegative : s.negative with
  | true =>
    rw [hnegative, if_pos rfl] at hverified
    rw [oracleCode_of_negative hsilent hnegative, if_pos hverified]
    exact String.append_empty.symm
  | false =>
    rw [hnegative] at hverified
    obtain ⟨hpostconditions, hmarkings⟩ := hverified
    have hstate : w.stateChecks testCaseId s = w.markingChecks testCaseId s.marking := by
      rw [stateChecks, hpostconditions, hmarkings]
      rfl
    rw [oracleCode_of_clean hsilent hnegative, hstate]
    simp only [String.append_assoc]
    rfl

/-- In a model that is built, the check of a marking checks all of it where its visible places that hold tuples
are declared places, or places of accessors, mutators or transitions. The tuples of hidden places, and of all
other places, leave no trace in it. -/
theorem oracleCode_of_verifiesMarking {system : String} {ds : List Declaration}
    (hmodel : Model.ofDeclarations system ds = .ok w.model) (h : w.VerifiesMarking s)
    (testCaseId : String) :
    w.oracleCode testCaseId s =
        (w.markingChecks testCaseId s.marking ++
          if s.negative then ""
          else w.deletionChecks testCaseId s ++ w.effectChecks testCaseId s ++ w.inlineTag s) ∧
      ((∀ place, w.model.isHidden place = false → s.marking.tuples place ≠ [] →
          place ∈ declaredPlaces ds) →
        w.ChecksMarking testCaseId s.marking (w.markingChecks testCaseId s.marking)) ∧
      ∀ place, w.model.isHidden place = true ∨ place ∉ declaredPlaces ds → ∀ tuples,
        w.markingChecks testCaseId (s.marking.insert place tuples) =
          w.markingChecks testCaseId s.marking := by
  have hplaces : w.model.places = declaredPlaces ds := Model.places_ofDeclarations hmodel
  refine ⟨oracleCode_eq_of_verifiesMarking h, ?_, ?_⟩
  · intro hdeclared
    have hnodup : w.model.places.Nodup := by
      rw [hplaces]
      exact nodup_firstOccurrences _
    rw [← hplaces] at hdeclared
    exact checksMarking_markingChecks hnodup hdeclared
  · intro place hunseen tuples
    refine markingChecks_congr fun other hmem hvisible => ?_
    refine Marking.tuples_insert_of_ne s.marking ?_ tuples
    rintro rfl
    rcases hunseen with hhidden | hunknown
    · rw [hvisible] at hhidden
      cases hhidden
    · exact hunknown (hplaces ▸ hmem)

/-- The places of a shop are declared and one is hidden, so the check of the marking is all the code of a
negative step, also after tuples were put into the hidden place. -/
theorem oracleCode_of_verifiesMarking_shop :
    ∃ m : Model,
      Model.ofDeclarations "Shop" [.mapping .accessor "balance(A, N)" "A.balance() == N",
        .place "log", .hidden "log"] = .ok m ∧
      let w : StepWriter := ⟨m, .default, .objectOrientedSystem, .forLanguage .java⟩
      let marking : Marking := (∅ : Marking).insert "balance" [["a", "1"], ["b", "2"]]
      let s : Step := { Step.firing (.named "pay") with negative := true, marking }
      w.VerifiesMarking s ∧
        w.oracleCode "1" s =
          "\n\t\tassertTrue(\"1\", a.balance() == 1);\n\t\tassertTrue(\"1\", b.balance() == 2);" ∧
        w.ChecksMarking "1" marking (w.oracleCode "1" s) ∧
        ∀ tuples, w.markingChecks "1" (marking.insert "log" tuples) = w.oracleCode "1" s := by
  have hm : Model.ofDeclarations "Shop" [.mapping .accessor "balance(A, N)" "A.balance() == N",
    .place "log", .hidden "log"] = .ok _ := rfl
  refine ⟨_, hm, ?_⟩
  intro w marking s
  have hs : w.VerifiesMarking s := ⟨by decide +kernel, rfl⟩
  obtain ⟨hcode, hchecks, hunseen⟩ := oracleCode_of_verifiesMarking (w := w) hm hs "1"
  have hmarking : w.oracleCode "1" s = w.markingChecks "1" marking := by
    rw [hcode]
    exact String.append_empty
  refine ⟨hs, by decide +kernel, ?_, fun tuples => ?_⟩
  · rw [hmarking]
    refine hchecks fun place _ hholds => ?_
    by_cases hplace : "balance" = place
    · subst hplace
      decide +kernel
    · exact absurd (Marking.tuples_insert_of_ne ∅ hplace _) hholds
  · rw [hmarking]
    exact hunseen "log" (.inl (by decide +kernel)) tuples

/-- A place that is not declared holds a tuple that is not checked. -/
theorem oracleCode_loses_undeclared_place :
    ∃ m : Model, Model.ofDeclarations "Shop" [.transition (.named "start")] = .ok m ∧
      let w : StepWriter := ⟨m, .default, .objectOrientedSystem, .forLanguage .java⟩
      let s : Step := { Step.firing (.named "start") with
        negative := true
        marking := (∅ : Marking).insert "open" [["shop"]] }
      w.VerifiesMarking s ∧ w.model.isHidden "open" = false ∧ s.marking.tuples "open" = [["shop"]] ∧
        w.checkLine "1" "open" ["shop"] .holds = "\n\t\tassertTrue(\"1\", open(shop));" ∧
        w.oracleCode "1" s = "" := by
  refine ⟨_, rfl, ?_⟩
  intro w s
  refine ⟨⟨by decide +kernel, rfl⟩, ?_, ?_, ?_, ?_⟩ <;> decide +kernel

end StepWriter

end TestScribe

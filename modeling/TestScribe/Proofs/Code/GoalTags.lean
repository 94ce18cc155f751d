import TestScribe.Code.Input
import TestScribe.Code.Oracle

/-!
# Goals and their tags

The goals tagged at the start of a test are those that a marking of its path satisfies
(`goalsOnPath_eq`); a marking satisfies a goal by the tuples of the places that the goal names
(`satisfies_congr`). Leaving the tags out changes no input code, and takes from oracle code the tag at its end
(`inputCode_withoutTags`, `oracleCode_eq_withoutTags`).
-/

namespace TestScribe

/-! ### Goals on a path -/

/-- The run through the markings may stop early, but no later marking could have marked another goal. -/
theorem markReached_eq (goals : List (Goal × Bool)) (path : List Marking) :
    markReached goals path = goals.map fun g => (g.1, g.2 || path.any fun m => m.satisfies g.1) := by
  induction path generalizing goals with
  | nil => simp [markReached]
  | cons m path ih =>
    rw [markReached]
    split
    · next hall =>
      have hreached : ∀ g ∈ goals, g.2 = true := List.all_eq_true.mp hall
      refine (List.map_id'' (fun _ => rfl) goals).symm.trans (List.map_congr_left fun g hg => ?_)
      rw [hreached g hg, Bool.true_or, ← hreached g hg]
    · rw [ih, List.map_map]
      refine List.map_congr_left fun g _ => ?_
      simp only [Function.comp_apply, List.any_cons, Bool.or_assoc]

theorem goalsOnPath_eq (goals : List Goal) (path : List Marking) :
    goalsOnPath goals path = (goals.filter fun g => path.any fun m => m.satisfies g).map Goal.name := by
  rw [goalsOnPath, markReached_eq, List.map_map, List.filter_map, List.map_map]
  simp only [Function.comp_def, Bool.false_or]

namespace Marking

variable {m m' : Marking} {condition negated : List Predicate}

theorem blocked_congr (h : ∀ p ∈ negated, m.tuples p.name = m'.tuples p.name) (b : Bindings) :
    m.blocked negated b = m'.blocked negated b := by
  unfold blocked holds
  induction negated with
  | nil => rfl
  | cons p negated ih =>
    obtain ⟨hp, hnegated⟩ := List.forall_mem_cons.mp h
    rw [List.any_cons, List.any_cons, hp, ih hnegated]

theorem search_congr (hcondition : ∀ p ∈ condition, m.tuples p.name = m'.tuples p.name)
    (hnegated : ∀ p ∈ negated, m.tuples p.name = m'.tuples p.name) (b : Bindings) :
    m.search negated condition b = m'.search negated condition b := by
  induction condition generalizing b with
  | nil => rw [search, search, blocked_congr hnegated]
  | cons p condition ih =>
    obtain ⟨hp, hcondition⟩ := List.forall_mem_cons.mp hcondition
    rw [search, search, hp]
    simp only [ih hcondition]

/-- Only the tuples of the places that the goal names count. -/
theorem satisfies_congr {g : Goal} (h : ∀ p ∈ g.condition ++ g.negated, m.tuples p.name = m'.tuples p.name) :
    m.satisfies g = m'.satisfies g := by
  obtain ⟨hcondition, hnegated⟩ := List.forall_mem_append.mp h
  rw [satisfies, satisfies, findBinding, findBinding, search_congr hcondition hnegated]

end Marking

/-! ### Tags -/

@[simp]
theorem goalTag_nil (o : Options) (m : Margin) : goalTag [] o m = "" :=
  if_pos (.inl rfl)

namespace Options

def withoutTags (o : Options) : Options :=
  { o with createGoalTags := false }

variable {o : Options}

theorem tagsAtStart_of_no_template (h : o.hasTagTemplate = false) : o.tagsAtStart = false := by
  rw [tagsAtStart, h]
  rfl

theorem tagsInline_of_no_template (h : o.hasTagTemplate = false) : o.tagsInline = false := by
  rw [tagsInline, h]
  rfl

theorem not_tagsInline_of_tagsAtStart (h : o.tagsAtStart = true) : o.tagsInline = false := by
  rw [tagsAtStart, Bool.and_eq_true, beq_iff_eq] at h
  rw [tagsInline, h.2]
  exact Bool.and_false _

end Options

namespace StepWriter

variable {w : StepWriter} {testCaseId : String} {s : Step}

def withoutTags (w : StepWriter) : StepWriter :=
  { w with options := w.options.withoutTags }

theorem inlineTag_of_not_tagsInline (h : w.options.tagsInline = false) (s : Step) : w.inlineTag s = "" := by
  rw [inlineTag, h, if_neg Bool.false_ne_true]

theorem inlineTag_of_no_goals (h : w.model.goals = []) (s : Step) : w.inlineTag s = "" := by
  rw [inlineTag, h]
  split
  · exact goalTag_nil _ _
  · rfl

theorem inputCode_withoutTags (w : StepWriter) (testCaseId : String) (s : Step) :
    w.withoutTags.inputCode testCaseId s = w.inputCode testCaseId s :=
  rfl

/-- The tag stands at the end of the oracle code, and only a clean step that is not silent has one. -/
theorem oracleCode_eq_withoutTags (w : StepWriter) (testCaseId : String) (s : Step) :
    w.oracleCode testCaseId s =
      w.withoutTags.oracleCode testCaseId s ++
        if w.isSilent s.event || s.negative then "" else w.inlineTag s := by
  have hplain : w.withoutTags.inlineTag s = "" := inlineTag_of_not_tagsInline rfl s
  cases hsilent : w.isSilent s.event with
  | true =>
    have hsilent' : w.withoutTags.isSilent s.event = true := hsilent
    rw [oracleCode, oracleCode, hsilent, hsilent']
    rfl
  | false =>
    have hsilent' : w.withoutTags.isSilent s.event = false := hsilent
    rw [oracleCode, oracleCode, hsilent, hsilent', hplain]
    cases s.negative with
    | true => exact String.append_empty.symm
    | false =>
      rw [String.append_empty]
      rfl

end StepWriter

end TestScribe

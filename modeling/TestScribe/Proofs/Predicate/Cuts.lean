import TestScribe.Proofs.Predicate.Nesting

/-!
# Where an argument list is cut

`Outer` says by counting that what follows a text is in no quotes and in no parentheses. The list ends at the first
closing parenthesis with such a text before it (`ClosedAt`), and its pieces meet at just the commas with such a text
before them (`CutAtCommas`). Both are what the scanners find (`closedAt_iff`, `cutAtCommas_iff`).
-/

namespace TestScribe

namespace Text

/-- Before this place quotes are paired, and outside of them as many parentheses are closed as are opened. -/
def Outer (before : List Char) : Prop :=
  before.count '"' % 2 = 0 ∧ closed false before = opened false before

/-- The text is cut at its first closing parenthesis that is in no quotes and closes none that was opened. -/
structure ClosedAt (cs inner after : List Char) : Prop where
  split : cs = inner ++ ')' :: after
  outer : Outer inner
  first : ∀ u v, cs = u ++ ')' :: v → Outer u → inner.length ≤ u.length

/-- Two of the pieces meet at a comma with the text `before` in front of it. -/
def Joint (ps : List (List Char)) (before : List Char) : Prop :=
  ∃ front back, ps = front ++ back ∧ front ≠ [] ∧ back ≠ [] ∧ [','].intercalate front = before

/-- The text is cut at the commas that are in no quotes and in no parentheses, and at no others. -/
structure CutAtCommas (cs : List Char) (ps : List (List Char)) : Prop where
  ne_nil : ps ≠ []
  joined : [','].intercalate ps = cs
  joint_iff : ∀ u v, cs = u ++ ',' :: v → (Joint ps u ↔ Outer u)

variable {cs inner inner' after after' p u v w : List Char} {ps : List (List Char)} {x y : Char}

/-- Of two characters of a text the one comes first, or the other, or they are the same. -/
theorem split_cases (h : p ++ x :: w = u ++ y :: v) :
    (∃ w', p = u ++ y :: w') ∨ u = p ∨ ∃ u', u = p ++ x :: u' ∧ w = u' ++ y :: v := by
  rcases List.append_eq_append_iff.mp h with ⟨as, rfl, has⟩ | ⟨as, rfl, has⟩
  · rcases List.cons_eq_append_iff.mp has with ⟨rfl, -⟩ | ⟨u', rfl, hw⟩
    · exact .inr (.inl (List.append_nil p))
    · exact .inr (.inr ⟨u', rfl, hw⟩)
  · rcases List.cons_eq_append_iff.mp has with ⟨rfl, -⟩ | ⟨w', rfl, -⟩
    · exact .inr (.inl (List.append_nil u).symm)
    · exact .inl ⟨w', rfl⟩

/-! ### Counting in two parts -/

theorem bare_append (quoted : Bool) (u v : List Char) :
    bare quoted (u ++ v) = bare quoted u ++ bare (quoted ^^ decide (u.count '"' % 2 = 1)) v := by
  induction u generalizing quoted with
  | nil => simp [bare]
  | cons c u ih =>
    rw [List.cons_append, bare, bare]
    by_cases hc : c = '"'
    · subst hc
      have hparity : (u.count '"' + 1) % 2 = 1 ↔ ¬ u.count '"' % 2 = 1 := by omega
      rw [if_pos rfl, if_pos rfl, ih, List.count_cons_self, decide_eq_decide.mpr hparity, decide_not]
      cases quoted <;> simp
    · rw [if_neg hc, if_neg hc, List.count_cons_of_ne hc, ih]
      cases quoted <;> rfl

theorem outer_append_iff (hu : Outer u) : Outer (u ++ v) ↔ Outer v := by
  obtain ⟨hquotes, hclosed⟩ := hu
  have hbare : bare false (u ++ v) = bare false u ++ bare false v := by
    rw [bare_append, hquotes]
    rfl
  rw [closed, opened] at hclosed
  rw [Outer, Outer, closed, opened, closed, opened, hbare, List.count_append, List.count_append, List.count_append,
    hclosed]
  omega

theorem outer_comma_iff : Outer (',' :: v) ↔ Outer v :=
  outer_append_iff (u := [',']) ⟨rfl, rfl⟩

/-! ### The closing parenthesis -/

theorem ClosedAt.unique (h : ClosedAt cs inner after) (h' : ClosedAt cs inner' after') :
    inner = inner' ∧ after = after' := by
  have hlength := Nat.le_antisymm (h.first _ _ h'.split h'.outer) (h'.first _ _ h.split h.outer)
  obtain ⟨hinner, hafter⟩ := List.append_inj (h.split.symm.trans h'.split) hlength
  exact ⟨hinner, (List.cons.inj hafter).2⟩

/-! ### The pieces -/

theorem intercalate_cons (hps : ps ≠ []) (p : List Char) :
    [','].intercalate (p :: ps) = p ++ ',' :: [','].intercalate ps := by
  obtain ⟨q, qs, rfl⟩ := List.exists_cons_of_ne_nil hps
  rw [List.intercalate_cons_cons, List.append_assoc]
  rfl

theorem not_joint_singleton : ¬ Joint [p] u := by
  rintro ⟨front, back, hps, hfront, hback, -⟩
  rcases List.cons_eq_append_iff.mp hps with ⟨rfl, -⟩ | ⟨front', -, hnil⟩
  · exact hfront rfl
  · exact hback (List.append_eq_nil_iff.mp hnil.symm).2

theorem joint_cons_iff (hps : ps ≠ []) : Joint (p :: ps) u ↔ u = p ∨ ∃ u', u = p ++ ',' :: u' ∧ Joint ps u' := by
  constructor
  · rintro ⟨front, back, heq, hfront, hback, rfl⟩
    rcases List.cons_eq_append_iff.mp heq with ⟨rfl, -⟩ | ⟨front, rfl, rfl⟩
    · exact absurd rfl hfront
    · by_cases hnil : front = []
      · subst hnil
        exact .inl List.intercalate_singleton
      · exact .inr ⟨_, intercalate_cons hnil p, front, back, rfl, hnil, hback, rfl⟩
  · rintro (rfl | ⟨_, rfl, front, back, rfl, hfront, hback, rfl⟩)
    · exact ⟨[u], ps, rfl, List.cons_ne_nil _ _, hps, List.intercalate_singleton⟩
    · exact ⟨p :: front, back, rfl, List.cons_ne_nil _ _, hback, intercalate_cons hfront p⟩

theorem cutAtCommas_singleton_iff :
    CutAtCommas cs [p] ↔ p = cs ∧ ∀ u v, cs = u ++ ',' :: v → ¬ Outer u := by
  constructor
  · intro h
    exact ⟨List.intercalate_singleton.symm.trans h.joined,
      fun u v hcs houter => not_joint_singleton ((h.joint_iff u v hcs).mpr houter)⟩
  · rintro ⟨rfl, hnone⟩
    exact ⟨List.cons_ne_nil _ _, List.intercalate_singleton,
      fun u v hcs => iff_of_false not_joint_singleton (hnone u v hcs)⟩

/-- The first piece ends at the first comma to cut at, and what follows is cut as a text of its own. -/
theorem cutAtCommas_cons_iff (hps : ps ≠ []) :
    CutAtCommas cs (p :: ps) ↔
      ∃ v, cs = p ++ ',' :: v ∧ Outer p ∧ (∀ u w, p = u ++ ',' :: w → ¬ Outer u) ∧ CutAtCommas v ps := by
  constructor
  · rintro ⟨-, rfl, hjoint⟩
    rw [intercalate_cons hps] at hjoint ⊢
    have hp : Outer p := (hjoint p _ rfl).mp ((joint_cons_iff hps).mpr (.inl rfl))
    refine ⟨_, rfl, hp, ?_, hps, rfl, fun u w hv => ?_⟩
    · rintro u w rfl houter
      rcases (joint_cons_iff hps).mp ((hjoint u _ (by rw [List.append_assoc, List.cons_append])).mpr houter)
        with heq | ⟨u', heq, -⟩
      · simp at heq
      · have hlength := congrArg List.length heq
        simp only [List.length_append, List.length_cons] at hlength
        omega
    · rw [← outer_comma_iff, ← outer_append_iff hp, ← hjoint (p ++ ',' :: u) w (by rw [hv, List.append_assoc]; rfl),
        joint_cons_iff hps]
      simp
  · rintro ⟨v, rfl, hp, hfirst, hcut⟩
    refine ⟨List.cons_ne_nil _ _, by rw [intercalate_cons hps, hcut.joined], fun u w hcs => ?_⟩
    rw [joint_cons_iff hps]
    rcases split_cases hcs with ⟨w', rfl⟩ | rfl | ⟨u', rfl, rfl⟩
    · refine iff_of_false ?_ (hfirst u w' rfl)
      rintro (heq | ⟨u', heq, -⟩)
      · simp at heq
      · have hlength := congrArg List.length heq
        simp only [List.length_append, List.length_cons] at hlength
        omega
    · exact iff_of_true (.inl rfl) hp
    · rw [outer_append_iff hp, outer_comma_iff, ← hcut.joint_iff u' w rfl]
      simp

end Text

open Text

namespace Nesting

variable {n : Nesting} {cs inner after u v : List Char} {ps : List (List Char)} {x : Char}

/-! ### What the scanners find -/

theorem outer_iff (h : outside.Avoids (· = ')') u) : Outer u ↔ (outside.run u).isOutside = true :=
  (isOutside_run_iff h).symm

theorem avoids_comma_iff (h : outside.Avoids (· = ')') cs) :
    outside.Avoids (· = ',') cs ↔ ∀ u v, cs = u ++ ',' :: v → ¬ Outer u := by
  rw [avoids_iff]
  constructor
  · rintro hcomma u v rfl houter
    rw [outer_iff (avoids_append.mp h).1, hcomma u ',' v rfl rfl] at houter
    cases houter
  · rintro hnone u c v rfl rfl
    rw [Bool.eq_false_iff]
    exact fun hout => hnone u v rfl ((outer_iff (avoids_append.mp h).1).mpr hout)

theorem exists_first (h : ¬ n.Avoids (· = x) cs) :
    ∃ u v, cs = u ++ x :: v ∧ n.Avoids (· = x) u ∧ (n.run u).isOutside = true := by
  induction cs generalizing n with
  | nil => exact absurd trivial h
  | cons c cs ih =>
    by_cases hc : c = x ∧ n.isOutside = true
    · obtain ⟨rfl, hout⟩ := hc
      exact ⟨[], cs, rfl, trivial, hout⟩
    · obtain ⟨u, v, rfl, hu, hout⟩ := ih fun hcs => h ⟨hc, hcs⟩
      exact ⟨c :: u, v, rfl, ⟨hc, hu⟩, hout⟩

theorem closedAt_of_cutAtClose (h : outside.cutAtClose cs = some (inner, after)) : ClosedAt cs inner after := by
  obtain ⟨rfl, havoids, hend⟩ := cutAtClose_sound h
  refine ⟨rfl, (outer_iff havoids).mpr hend, fun u v hcs houter => ?_⟩
  rcases split_cases hcs with ⟨w, rfl⟩ | rfl | ⟨u', rfl, -⟩
  · rw [avoids_append] at havoids
    exact absurd ⟨rfl, (outer_iff havoids.1).mp houter⟩ havoids.2.1
  · exact Nat.le_refl _
  · rw [List.length_append]
    exact Nat.le_add_right _ _

theorem closedAt_iff : ClosedAt cs inner after ↔ outside.cutAtClose cs = some (inner, after) := by
  refine ⟨fun h => ?_, closedAt_of_cutAtClose⟩
  by_cases havoids : outside.Avoids (· = ')') cs
  · rw [h.split, avoids_append] at havoids
    exact absurd ⟨rfl, (outer_iff havoids.1).mp h.outer⟩ havoids.2.1
  · obtain ⟨u, v, rfl, hu, hout⟩ := exists_first havoids
    have hcut := cutAtClose_append (v := v) hu hout
    obtain ⟨rfl, rfl⟩ := h.unique (closedAt_of_cutAtClose hcut)
    exact hcut

theorem pieces_ne_nil : n.pieces cs ≠ [] := by
  cases cs with
  | nil => exact List.cons_ne_nil _ _
  | cons c cs =>
    rw [pieces]
    split
    · exact List.cons_ne_nil _ _
    · split <;> exact List.cons_ne_nil _ _

theorem cutAtCommas_pieces {cs : List Char} (h : outside.Avoids (· = ')') cs) :
    CutAtCommas cs (outside.pieces cs) := by
  by_cases hcomma : outside.Avoids (· = ',') cs
  · rw [pieces_of_avoids hcomma]
    exact cutAtCommas_singleton_iff.mpr ⟨rfl, (avoids_comma_iff h).mp hcomma⟩
  · obtain ⟨u, v, hcs, hu, hout⟩ := exists_first hcomma
    rw [hcs, avoids_append] at h
    obtain ⟨hclose, hrest⟩ := h
    rw [isOutside_iff.mp hout, Avoids, step_other (by decide) (by decide) (by decide)] at hrest
    have hlength : v.length < cs.length := by rw [hcs, List.length_append, List.length_cons]; omega
    rw [hcs, pieces_append hu hout, cutAtCommas_cons_iff pieces_ne_nil]
    exact ⟨v, rfl, (outer_iff hclose).mpr hout, (avoids_comma_iff hclose).mp hu, cutAtCommas_pieces hrest.2⟩
termination_by cs.length

/-- Between the parentheses of a list, the scan for pieces cuts at the commas that are to cut at. -/
theorem cutAtCommas_iff (h : outside.Avoids (· = ')') cs) : CutAtCommas cs ps ↔ ps = outside.pieces cs := by
  refine ⟨fun hcut => ?_, fun heq => heq ▸ cutAtCommas_pieces h⟩
  induction ps generalizing cs with
  | nil => exact absurd rfl hcut.ne_nil
  | cons p ps ih =>
    by_cases hps : ps = []
    · subst hps
      obtain ⟨rfl, hnone⟩ := cutAtCommas_singleton_iff.mp hcut
      rw [pieces_of_avoids ((avoids_comma_iff h).mpr hnone)]
    · obtain ⟨v, rfl, hp, hfirst, hcut⟩ := (cutAtCommas_cons_iff hps).mp hcut
      obtain ⟨hclose, hrest⟩ := avoids_append.mp h
      have hout := (outer_iff hclose).mp hp
      rw [isOutside_iff.mp hout, Avoids, step_other (by decide) (by decide) (by decide)] at hrest
      rw [pieces_append ((avoids_comma_iff hclose).mpr hfirst) hout, ← ih hrest.2 hcut]

end Nesting

end TestScribe

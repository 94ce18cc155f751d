/-!
# The first element with a property

`IsFirst P l x`: `x` is the first element of `l` that satisfies `P`. `find?` and `findSome?` give such
elements, and leaving out elements that cannot satisfy `P` does not change which one is first.
-/

namespace TestScribe

inductive IsFirst {α : Type} (P : α → Prop) : List α → α → Prop
  | here {x : α} {l : List α} (hx : P x) : IsFirst P (x :: l) x
  | there {x y : α} {l : List α} (hx : ¬ P x) (h : IsFirst P l y) : IsFirst P (x :: l) y

namespace IsFirst
variable {α β : Type} {P : α → Prop} {l : List α} {x y : α}

theorem holds (h : IsFirst P l x) : P x := by
  induction h with
  | here hx => exact hx
  | there _ _ ih => exact ih

theorem mem (h : IsFirst P l x) : x ∈ l := by
  induction h with
  | here => exact List.mem_cons_self
  | there _ _ ih => exact List.mem_cons_of_mem _ ih

theorem unique (h : IsFirst P l x) (h' : IsFirst P l y) : x = y := by
  induction h with
  | here hx => cases h' with
    | here => rfl
    | there hx' => exact absurd hx hx'
  | there hx _ ih => cases h' with
    | here hx' => exact absurd hx' hx
    | there _ h' => exact ih h'

theorem forall_not_of_filter_eq {q : α → Bool} {l' : List α} (hq : ∀ x, P x → q x = true)
    (hl : l.filter q = l'.filter q) (h : ∀ x ∈ l, ¬ P x) : ∀ x ∈ l', ¬ P x := by
  intro x hx hP
  have hmem : x ∈ l'.filter q := List.mem_filter.mpr ⟨hx, hq x hP⟩
  rw [← hl] at hmem
  exact h x (List.mem_filter.mp hmem).1 hP

theorem of_find? {p : α → Bool} (hp : ∀ x, p x = true ↔ P x) (h : l.find? p = some x) :
    IsFirst P l x := by
  induction l with
  | nil => cases h
  | cons y l ih =>
    rw [List.find?_cons] at h
    split at h
    · next hy =>
      cases h
      exact .here ((hp _).mp hy)
    · next hy => exact .there (fun hP => by rw [(hp y).mpr hP] at hy; cases hy) (ih h)

theorem find?_eq_some_iff {p : α → Bool} (hp : ∀ x, p x = true ↔ P x) : l.find? p = some x ↔ IsFirst P l x := by
  refine ⟨of_find? hp, fun h => ?_⟩
  cases hfind : l.find? p with
  | none => exact absurd ((hp x).mpr h.holds) (List.find?_eq_none.mp hfind x h.mem)
  | some y => rw [h.unique (of_find? hp hfind)]

theorem of_findSome? {f : α → Option β} {b : β} (hf : ∀ x, (f x).isSome ↔ P x)
    (h : l.findSome? f = some b) : ∃ x, IsFirst P l x ∧ f x = some b := by
  induction l with
  | nil => cases h
  | cons y l ih =>
    rw [List.findSome?_cons] at h
    split at h
    · next c hc =>
      cases h
      exact ⟨y, .here ((hf y).mp (by simp [hc])), hc⟩
    · next hc =>
      obtain ⟨x, hx, hb⟩ := ih h
      exact ⟨x, .there (fun hP => by simpa [hc] using (hf y).mpr hP) hx, hb⟩

theorem of_filter {q : α → Bool} (h : IsFirst P (l.filter q) x) :
    IsFirst (fun x => q x = true ∧ P x) l x := by
  induction l with
  | nil => cases h
  | cons y l ih =>
    rw [List.filter_cons] at h
    split at h
    · next hy =>
      cases h with
      | here hx => exact .here ⟨hy, hx⟩
      | there hx h => exact .there (fun hP => hx hP.2) (ih h)
    · next hy => exact .there (fun hP => hy hP.1) (ih h)

theorem filter {q : α → Bool} (h : IsFirst (fun x => q x = true ∧ P x) l x) :
    IsFirst P (l.filter q) x := by
  induction h with
  | here hx => rw [List.filter_cons_of_pos hx.1]; exact .here hx.2
  | @there x _ _ hx _ ih =>
    rw [List.filter_cons]
    split
    · next hq => exact .there (fun hP => hx ⟨hq, hP⟩) ih
    · exact ih

/-- Some element has the property and there is a first one, or no element has it. -/
theorem exists_or_forall_not (P : α → Prop) [DecidablePred P] (l : List α) :
    (∃ x, IsFirst P l x) ∨ ∀ x ∈ l, ¬ P x := by
  induction l with
  | nil => exact .inr (by simp)
  | cons y l ih =>
    by_cases hy : P y
    · exact .inl ⟨y, .here hy⟩
    · rcases ih with ⟨x, hx⟩ | hnone
      · exact .inl ⟨x, .there hy hx⟩
      · exact .inr (List.forall_mem_cons.mpr ⟨hy, hnone⟩)

theorem of_append {l' : List α} (h : IsFirst P (l ++ l') x) :
    IsFirst P l x ∨ (∀ y ∈ l, ¬ P y) ∧ IsFirst P l' x := by
  induction l with
  | nil => exact .inr ⟨by simp, h⟩
  | cons y l ih =>
    rw [List.cons_append] at h
    cases h with
    | here hy => exact .inl (.here hy)
    | there hy h =>
      rcases ih h with hl | ⟨hnone, hl'⟩
      · exact .inl (.there hy hl)
      · exact .inr ⟨List.forall_mem_cons.mpr ⟨hy, hnone⟩, hl'⟩

/-- The first element with a property is the first with a stronger one, if it has it. -/
theorem of_imp {Q : α → Prop} (h : IsFirst P l x) (hQ : ∀ y, Q y → P y) (hx : Q x) :
    IsFirst Q l x := by
  induction h with
  | here => exact .here hx
  | there hy _ ih => exact .there (fun hQy => hy (hQ _ hQy)) (ih hx)

/-- Elements that cannot have the property may be left out or added. -/
theorem of_filter_eq {q : α → Bool} {l' : List α} (hq : ∀ x, P x → q x = true)
    (hl : l.filter q = l'.filter q) (h : IsFirst P l x) : IsFirst P l' x := by
  have hP : (fun x => q x = true ∧ P x) = P :=
    funext fun y => propext ⟨fun hy => hy.2, fun hy => ⟨hq y hy, hy⟩⟩
  rw [← hP] at h ⊢
  exact of_filter (hl ▸ h.filter)

end IsFirst

end TestScribe

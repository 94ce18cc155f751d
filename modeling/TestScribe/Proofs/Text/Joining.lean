/-!
# Joined texts

Joining pieces that were joined from smaller ones joins the smaller ones (`join_flatMap`), and empty pieces
do not show (`join_map_filter`, `join_eq_empty_iff`).
-/

namespace TestScribe.Text

theorem join_eq_empty_iff {l : List String} : String.join l = "" ↔ ∀ x ∈ l, x = "" := by
  induction l with
  | nil => simp
  | cons x l ih => rw [String.join_cons, String.append_eq_empty_iff, ih, List.forall_mem_cons]

theorem join_flatMap {α : Type} (l : List α) (f : α → List String) :
    String.join (l.flatMap f) = String.join (l.map fun x => String.join (f x)) := by
  induction l with
  | nil => rfl
  | cons x l ih => rw [List.flatMap_cons, String.join_append, ih, List.map_cons, String.join_cons]

/-- Elements without text may be left out. -/
theorem join_map_filter {α : Type} {p : α → Bool} {f : α → String} (l : List α)
    (h : ∀ x ∈ l, p x = false → f x = "") :
    String.join ((l.filter p).map f) = String.join (l.map f) := by
  induction l with
  | nil => rfl
  | cons x l ih =>
    obtain ⟨hx, hl⟩ := List.forall_mem_cons.mp h
    rw [List.filter_cons, List.map_cons, String.join_cons, ← ih hl]
    split
    · rw [List.map_cons, String.join_cons]
    · next hp => rw [hx (Bool.eq_false_iff.mpr hp), String.empty_append]

end TestScribe.Text

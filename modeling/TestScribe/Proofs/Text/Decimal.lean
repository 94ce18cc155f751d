import Mathlib.Data.List.Basic

/-!
# Numbers in a text

A number is written in digits and can be read back from them, so numbers that are joined by a character that is no
digit can be told apart (`joined_inj`).
-/

namespace TestScribe

theorem isDigit_of_mem_toString {n : Nat} {c : Char} (h : c ∈ (toString n).toList) : c.isDigit = true := by
  rw [Nat.toString_eq_repr, Nat.toList_repr] at h
  exact Nat.isDigit_of_mem_toDigits (by decide) (Nat.le_refl 10) h

theorem ofDigitChars_toString (n : Nat) : Nat.ofDigitChars 10 (toString n).toList 0 = n := by
  rw [Nat.toString_eq_repr, Nat.toList_repr, Nat.ofDigitChars_toDigits (by decide) (Nat.le_refl 10)]

theorem toString_injective : Function.Injective (toString : Nat → String) := fun m n h => by
  rw [← ofDigitChars_toString m, h, ofDigitChars_toString]

/-- Numbers in decimal with underscores between them. -/
def joined (numbers : List Nat) : String :=
  "_".intercalate (numbers.map toString)

theorem joined_concat {numbers : List Nat} (h : numbers ≠ []) (n : Nat) :
    joined (numbers ++ [n]) = joined numbers ++ "_" ++ toString n := by
  have hne : numbers.map toString ≠ [] := fun hnil => h (List.map_eq_nil_iff.mp hnil)
  rw [joined, List.map_append, String.intercalate_append_of_ne_nil hne (by simp)]
  simp [joined]

theorem splitOn_joined {numbers : List Nat} (h : numbers ≠ []) :
    (joined numbers).toList.splitOn '_' = numbers.map fun n => (toString n).toList := by
  rw [joined, String.toList_intercalate, List.map_map]
  refine List.splitOn_intercalate '_' (fun digits hdigits hmem => ?_) (by simpa using h)
  obtain ⟨n, -, rfl⟩ := List.mem_map.mp hdigits
  exact absurd (isDigit_of_mem_toString hmem) (by decide)

theorem joined_inj {numbers numbers' : List Nat} (h : numbers ≠ []) (h' : numbers' ≠ [])
    (heq : joined numbers = joined numbers') : numbers = numbers' := by
  have hsplit : numbers.map (fun n => (toString n).toList) = numbers'.map fun n => (toString n).toList := by
    rw [← splitOn_joined h, heq, splitOn_joined h']
  exact List.map_injective_iff.mpr (fun m n hmn => toString_injective (String.toList_inj.mp hmn)) hsplit

end TestScribe

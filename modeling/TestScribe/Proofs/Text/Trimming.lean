import TestScribe.Term
import TestScribe.Proofs.Text.Rewriting

/-!
# Trimming

A text is its own trim when it neither starts nor ends with a blank (`trim_eq_self_iff`). `exists_trim`
splits a text into the blanks at its ends and its trim, and trimming again changes nothing (`trim_trim`).
-/

namespace TestScribe

namespace Text

variable {cs : List Char}

theorem blank_iff : blank cs = true ↔ ∀ c ∈ cs, isBlank c = true :=
  List.all_eq_true

theorem trim_append_back (cs : List Char) :
    ∃ back, blank back = true ∧ trim cs ++ back = cs.dropWhile isBlank := by
  refine ⟨((cs.dropWhile isBlank).reverse.takeWhile isBlank).reverse, ?_, ?_⟩
  · rw [blank, List.all_reverse]
    exact List.all_takeWhile
  · rw [trim, ← List.reverse_append, List.takeWhile_append_dropWhile, List.reverse_reverse]

theorem exists_trim (cs : List Char) :
    ∃ front back, blank front = true ∧ blank back = true ∧ cs = front ++ (trim cs ++ back) := by
  obtain ⟨back, hblank, hback⟩ := trim_append_back cs
  exact ⟨cs.takeWhile isBlank, back, List.all_takeWhile, hblank, by
    rw [hback, List.takeWhile_append_dropWhile]⟩

theorem mem_of_mem_trim {c : Char} (h : c ∈ trim cs) : c ∈ cs := by
  obtain ⟨front, back, -, -, hcs⟩ := exists_trim cs
  rw [hcs]
  exact List.mem_append_right _ (List.mem_append_left _ h)

/-- Trimming takes away blanks only. -/
theorem count_trim {c : Char} (hc : isBlank c = false) (cs : List Char) : (trim cs).count c = cs.count c := by
  obtain ⟨front, back, hfront, hback, hcs⟩ := exists_trim cs
  have hnot {blanks : List Char} (h : blank blanks = true) : blanks.count c = 0 :=
    List.count_eq_zero.mpr fun hmem => by
      rw [blank_iff.mp h c hmem] at hc
      cases hc
  have hcount := congrArg (List.count c) hcs
  rw [List.count_append, List.count_append, hnot hfront, hnot hback, Nat.zero_add, Nat.add_zero] at hcount
  exact hcount.symm

theorem dropWhile_of_head? {p : Char → Bool} (h : ∀ c ∈ cs.head?, p c = false) :
    cs.dropWhile p = cs := by
  cases cs with
  | nil => rfl
  | cons c cs => simp [h c (by simp)]

theorem not_isBlank_head?_trim : ∀ c ∈ (trim cs).head?, isBlank c = false := by
  intro c hc
  obtain ⟨back, -, hback⟩ := trim_append_back cs
  have hmem : c ∈ (cs.dropWhile isBlank).head? := by
    rw [← hback, List.head?_append, hc]; rfl
  exact mem_head?_dropWhile hmem

theorem not_isBlank_getLast?_trim : ∀ c ∈ (trim cs).getLast?, isBlank c = false := by
  intro c hc
  rw [trim, List.getLast?_reverse] at hc
  exact mem_head?_dropWhile hc

theorem trim_eq_self (hhead : ∀ c ∈ cs.head?, isBlank c = false)
    (hlast : ∀ c ∈ cs.getLast?, isBlank c = false) : trim cs = cs := by
  rw [← List.head?_reverse] at hlast
  rw [trim, dropWhile_of_head? hhead, dropWhile_of_head? hlast, List.reverse_reverse]

theorem trim_eq_self_iff :
    trim cs = cs ↔ (∀ c ∈ cs.head?, isBlank c = false) ∧ ∀ c ∈ cs.getLast?, isBlank c = false :=
  ⟨fun h => h ▸ ⟨not_isBlank_head?_trim, not_isBlank_getLast?_trim⟩, fun h => trim_eq_self h.1 h.2⟩

theorem trim_trim (cs : List Char) : trim (trim cs) = trim cs :=
  trim_eq_self not_isBlank_head?_trim not_isBlank_getLast?_trim

theorem trim_cons_of_isBlank {c : Char} (hc : isBlank c = true) (cs : List Char) :
    trim (c :: cs) = trim cs := by
  rw [trim, List.dropWhile_cons_of_pos hc, trim]

theorem trim_eq_nil_iff : trim cs = [] ↔ blank cs = true := by
  constructor
  · intro h
    obtain ⟨front, back, hfront, hback, hcs⟩ := exists_trim cs
    rw [hcs, h, List.nil_append, blank, List.all_append, Bool.and_eq_true]
    exact ⟨hfront, hback⟩
  · intro h
    rw [← List.append_nil cs, trim, List.dropWhile_append_of_pos (blank_iff.mp h)]
    rfl

end Text

theorem toList_trimmed (s : String) : (trimmed s).toList = Text.trim s.toList :=
  String.toList_ofList

theorem trimmed_trimmed (s : String) : trimmed (trimmed s) = trimmed s := by
  rw [← String.toList_inj, toList_trimmed, toList_trimmed, Text.trim_trim]

end TestScribe

import TestScribe.Margin

/-!
# Indented blocks

There are two ways to code that is indented by one more level: a unit is put after every line break of written
code (`Margin.indentBlock`), or the code is written at a deeper margin (`Margin.indented`). The first can be undone
at every margin (`outdentBlock_indentBlock`). At the margin of a language the two write the same lines
(`indentBlock_line`), as the unit and the indentation of a body can be exchanged.
-/

namespace TestScribe

/-! ### Replacing a character -/

section ReplaceChar

variable {c : Char} {rep : String}

theorem toList_replaceChar (s : String) :
    (replaceChar c rep s).toList = s.toList.flatMap fun x => if x = c then rep.toList else [x] :=
  String.toList_ofList

theorem replaceChar_append (a b : String) :
    replaceChar c rep (a ++ b) = replaceChar c rep a ++ replaceChar c rep b := by
  unfold replaceChar
  rw [String.toList_append, List.flatMap_append, String.ofList_append]

theorem replaceChar_of_not_mem {s : String} (h : c ∉ s.toList) : replaceChar c rep s = s := by
  have hkept : ∀ x ∈ s.toList, (if x = c then rep.toList else [x]) = [x] :=
    fun x hx => if_neg (ne_of_mem_of_not_mem hx h)
  rw [replaceChar, List.flatMap_def, List.map_congr_left hkept, ← List.flatMap_def, List.flatMap_singleton',
    String.ofList_toList]

end ReplaceChar

namespace Text

/-- Each search starts where a character of the old text stood, so it finds exactly what was put in. -/
theorem replaceAll_flatMap (c : Char) (unit cs : List Char) :
    replaceAll (c :: unit) [c] (cs.flatMap fun x => if x = c then c :: unit else [x]) = cs := by
  induction cs with
  | nil => rw [List.flatMap_nil, replaceAll]
  | cons x cs ih =>
    rw [List.flatMap_cons]
    split
    · next hx =>
      have hfound : (c :: unit).isPrefixOf (c :: (unit ++ cs.flatMap fun x => if x = c then c :: unit else [x])) :=
        List.isPrefixOf_iff_prefix.mpr (List.prefix_append (c :: unit) _)
      rw [List.cons_append, replaceAll, if_pos hfound, List.length_cons, Nat.add_sub_cancel, List.drop_left, ih, hx,
        List.singleton_append]
    · next hx =>
      have hnot : ¬ (c :: unit).isPrefixOf (x :: cs.flatMap fun x => if x = c then c :: unit else [x]) := by
        rw [List.isPrefixOf_iff_prefix, List.cons_prefix_cons]
        exact fun h => hx h.1.symm
      rw [List.singleton_append, replaceAll, if_neg hnot, ih]

/-- A text of lines, each after a line break. -/
def lines (l : List String) : String :=
  String.join (l.map ("\n" ++ ·))

theorem lines_append (l l' : List String) : lines (l ++ l') = lines l ++ lines l' := by
  rw [lines, List.map_append, String.join_append]
  rfl

end Text

namespace Margin

variable {m : Margin}

theorem join_map_line (m : Margin) (l : List String) :
    String.join (l.map m.line) = Text.lines (l.map (m.indent ++ ·)) := by
  rw [Text.lines, List.map_map]
  refine congrArg String.join (List.map_congr_left fun code _ => ?_)
  exact String.append_assoc

/-- Take the unit away after every line break. -/
def outdentBlock (m : Margin) (code : String) : String :=
  replaceText ("\n" ++ m.unit) "\n" code

theorem outdentBlock_indentBlock (m : Margin) (code : String) : m.outdentBlock (m.indentBlock code) = code := by
  have hunit : ("\n" ++ m.unit).toList = '\n' :: m.unit.toList := String.toList_append
  rw [outdentBlock, indentBlock, replaceText, toList_replaceChar, hunit]
  show String.ofList (Text.replaceAll _ ['\n'] _) = code
  rw [Text.replaceAll_flatMap, String.ofList_toList]

theorem indentBlock_join (l : List String) : m.indentBlock (String.join l) = String.join (l.map m.indentBlock) := by
  induction l with
  | nil => rfl
  | cons x l ih =>
    rw [String.join_cons, List.map_cons, String.join_cons, ← ih]
    exact replaceChar_append x _

theorem indentBlock_break_append (m : Margin) (code : String) :
    m.indentBlock ("\n" ++ code) = "\n" ++ m.unit ++ m.indentBlock code := by
  have hbreak : m.indentBlock "\n" = "\n" ++ m.unit := by simp [indentBlock, replaceChar]
  rw [← hbreak]
  exact replaceChar_append _ _

end Margin

namespace Language

theorem not_mem_bodyIndentation (l : Language) : '\n' ∉ l.bodyIndentation.toList := by
  cases l <;> decide

theorem indentUnit_append_bodyIndentation (l : Language) :
    l.indentUnit ++ l.bodyIndentation = l.bodyIndentation ++ l.indentUnit := by
  cases l <;> rfl

end Language

/-- At the margin of a language, a line is indented as if it had been written one level deeper. -/
theorem Margin.indentBlock_line (l : Language) {code : String} (h : '\n' ∉ code.toList) :
    (forLanguage l).indentBlock ((forLanguage l).line code) = (forLanguage l).indented.line code := by
  have hrest : '\n' ∉ (l.bodyIndentation ++ code).toList := by
    rw [String.toList_append, List.mem_append]
    exact not_or.mpr ⟨l.not_mem_bodyIndentation, h⟩
  calc (forLanguage l).indentBlock ("\n" ++ l.bodyIndentation ++ code)
      = "\n" ++ l.indentUnit ++ (forLanguage l).indentBlock (l.bodyIndentation ++ code) := by
        rw [String.append_assoc, indentBlock_break_append]
        rfl
    _ = "\n" ++ (l.indentUnit ++ l.bodyIndentation) ++ code := by
        rw [indentBlock, replaceChar_of_not_mem hrest]
        simp only [String.append_assoc]
    _ = "\n" ++ (l.bodyIndentation ++ l.indentUnit) ++ code := by
        rw [l.indentUnit_append_bodyIndentation]

end TestScribe

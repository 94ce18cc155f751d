import TestScribe.Proofs.Predicate.Nesting
import TestScribe.Proofs.Text.Trimming

/-!
# Reading back what was displayed

`Predicate.WellFormed` describes the predicates that `Predicate.parse` can return. Those, and no others,
are read back from their display (`parse_display`).
-/

namespace TestScribe

open Text Nesting

namespace Term

structure WellFormed (a : Term) : Prop where
  text_ne : a.text ≠ ""
  trimmed_text : trimmed a.text = a.text
  balanced : Balanced a.text.toList
  noOuterComma : NoOuterComma a.text.toList
  isVariable_eq : a.isVariable = isVariableName a.text

variable {a b : Term} {s : String}

theorem ext_text (htext : a.text = b.text) (hvar : a.isVariable = b.isVariable) : a = b := by
  cases a <;> cases b <;> simp_all [text, isVariable]

@[simp]
theorem text_parse (s : String) : (parse s).text = trimmed s := by
  rw [parse]
  split <;> rfl

@[simp]
theorem isVariable_parse (s : String) : (parse s).isVariable = isVariableName (trimmed s) := by
  rw [parse]
  split
  · next h => exact h.symm
  · next h => exact (Bool.eq_false_iff.mpr h).symm

theorem WellFormed.clean (h : a.WellFormed) : Clean a.text.toList :=
  clean_iff.mpr ⟨h.balanced, h.noOuterComma⟩

theorem WellFormed.trim_text (h : a.WellFormed) : trim a.text.toList = a.text.toList := by
  rw [← toList_trimmed, h.trimmed_text]

/-- A blank in front of a well-formed term is not read. -/
theorem WellFormed.parse_text (h : a.WellFormed) (hs : trim s.toList = a.text.toList) :
    parse s = a := by
  have htrim : trimmed s = a.text := by rw [← String.toList_inj, toList_trimmed, hs]
  exact ext_text (by rw [text_parse, htrim]) (by rw [isVariable_parse, htrim, h.isVariable_eq])

theorem WellFormed.not_blank (h : a.WellFormed) : blank a.text.toList = false := by
  rw [Bool.eq_false_iff]
  intro hblank
  rw [← trim_eq_nil_iff, h.trim_text, String.toList_eq_nil_iff] at hblank
  exact h.text_ne hblank

/-- What is read from a piece of an argument list is well-formed. -/
theorem wellFormed_parse (hblank : blank s.toList = false) (hclean : Clean s.toList) :
    (parse s).WellFormed := by
  obtain ⟨front, back, hfront, hback, hs⟩ := exists_trim s.toList
  rw [hs, clean_blank_append_iff hfront hback] at hclean
  obtain ⟨hbal, hcomma⟩ := clean_iff.mp hclean
  refine ⟨fun hempty => ?_, ?_, ?_, ?_, ?_⟩
  · rw [text_parse, ← String.toList_eq_nil_iff, toList_trimmed, trim_eq_nil_iff, hblank] at hempty
    cases hempty
  · rw [text_parse, trimmed_trimmed]
  · rwa [text_parse, toList_trimmed]
  · rwa [text_parse, toList_trimmed]
  · rw [isVariable_parse, text_parse]

end Term

namespace Predicate

structure WellFormed (p : Predicate) : Prop where
  name_ne : p.name ≠ ""
  trimmed_name : trimmed p.name = p.name
  paren_not_mem : '(' ∉ p.name.toList
  args : ∀ a ∈ p.args, a.WellFormed

variable {text : String} {rest : List Char} {ps : List (List Char)} {terms : List Term} {p q : Predicate}

/-! ### What the reader does -/

theorem readArguments_ok_iff {position : Nat} :
    readArguments text position ps = .ok terms ↔
      (∀ cs ∈ ps, blank cs = false) ∧ terms = ps.map fun cs => Term.parse (String.ofList cs) := by
  induction ps generalizing position terms with
  | nil =>
    rw [readArguments, Except.ok.injEq, List.map_nil]
    exact ⟨fun h => ⟨by simp, h.symm⟩, fun h => h.2.symm⟩
  | cons cs ps ih =>
    rw [readArguments]
    by_cases hblank : blank cs = true
    · simp [hblank]
    rw [if_neg hblank]
    rw [Bool.not_eq_true] at hblank
    constructor
    · intro h
      split at h
      · next terms' hread =>
        cases h
        obtain ⟨hps, rfl⟩ := ih.mp hread
        exact ⟨List.forall_mem_cons.mpr ⟨hblank, hps⟩, rfl⟩
      · cases h
    · rintro ⟨hps, rfl⟩
      rw [ih.mpr ⟨(List.forall_mem_cons.mp hps).2, rfl⟩, List.map_cons]

theorem readList_ok_iff :
    readList text rest = .ok terms ↔ ∃ inner after, outside.cutAtClose rest = some (inner, after) ∧
      blank after = true ∧ (blank inner = true ∧ terms = [] ∨
        blank inner = false ∧ readArguments text 0 (outside.pieces inner) = .ok terms) := by
  rw [readList]
  cases hcut : outside.cutAtClose rest with
  | none => simp
  | some cut =>
    obtain ⟨inner, after⟩ := cut
    constructor
    · intro h
      refine ⟨inner, after, rfl, ?_⟩
      cases hafter : blank after <;> cases hinner : blank inner <;> simp_all
    · rintro ⟨_, _, he, hafter, ⟨hinner, rfl⟩ | ⟨hinner, hread⟩⟩ <;> cases he
      · simp [hafter, hinner]
      · simp [hafter, hinner, hread]

/-- Reading is cutting at the first parenthesis, and reading the list that follows. -/
theorem parse_ok_iff :
    parse text = .ok p ↔ p.name ≠ "" ∧
      p.name = String.ofList (trim ((trim text.toList).takeWhile (· ≠ '('))) ∧
      ((trim text.toList).dropWhile (· ≠ '(') = [] ∧ p.args = [] ∨
        ∃ rest, (trim text.toList).dropWhile (· ≠ '(') = '(' :: rest ∧
          readList text rest = .ok p.args) := by
  obtain ⟨name, args⟩ := p
  simp only [parse]
  generalize hname : String.ofList (trim ((trim text.toList).takeWhile (· ≠ '('))) = read
  by_cases hne : read = ""
  · rw [if_pos hne]
    constructor
    · exact fun h => by cases h
    · rintro ⟨hn, rfl, -⟩
      exact absurd hne hn
  rw [if_neg hne]
  cases hdrop : (trim text.toList).dropWhile (· ≠ '(') with
  | nil =>
    constructor
    · intro h
      cases h
      exact ⟨hne, rfl, .inl ⟨rfl, rfl⟩⟩
    · rintro ⟨-, rfl, ⟨-, rfl⟩ | ⟨rest, hrest, -⟩⟩
      · rfl
      · cases hrest
  | cons c rest =>
    have hc : c = '(' := by
      have hfalse := mem_head?_dropWhile (p := (· ≠ '(')) (l := trim text.toList) (x := c)
        (by rw [hdrop]; rfl)
      simpa using hfalse
    subst hc
    cases hread : readList text rest with
    | error e =>
      simp only [hread]
      constructor
      · exact fun h => by cases h
      · rintro ⟨-, -, ⟨hnil, -⟩ | ⟨rest', hrest, hok⟩⟩
        · cases hnil
        · cases hrest
          rw [hread] at hok; cases hok
    | ok terms =>
      simp only [hread]
      constructor
      · intro h
        cases h
        exact ⟨hne, rfl, .inr ⟨rest, rfl, hread⟩⟩
      · rintro ⟨-, rfl, ⟨hnil, -⟩ | ⟨rest', hrest, hok⟩⟩
        · cases hnil
        · cases hrest
          rw [hread] at hok; cases hok; rfl

/-! ### What is read is well-formed -/

theorem wellFormed_of_readList (h : readList text rest = .ok terms) : ∀ a ∈ terms, a.WellFormed := by
  obtain ⟨inner, after, hcut, -, ⟨-, rfl⟩ | ⟨-, hread⟩⟩ := readList_ok_iff.mp h
  · simp
  obtain ⟨-, havoids, hend⟩ := cutAtClose_sound hcut
  obtain ⟨hblank, rfl⟩ := readArguments_ok_iff.mp hread
  intro a ha
  obtain ⟨cs, hcs, rfl⟩ := List.mem_map.mp ha
  refine Term.wellFormed_parse ?_ ?_
  · rw [String.toList_ofList]; exact hblank cs hcs
  · rw [String.toList_ofList]; exact clean_of_mem_pieces havoids hend cs hcs

theorem wellFormed_of_parse (h : parse text = .ok p) : p.WellFormed := by
  obtain ⟨hne, hname, hargs⟩ := parse_ok_iff.mp h
  have htoList : p.name.toList = trim ((trim text.toList).takeWhile (· ≠ '(')) := by
    rw [hname, String.toList_ofList]
  refine ⟨hne, ?_, fun hmem => ?_, ?_⟩
  · rw [← String.toList_inj, toList_trimmed, htoList, trim_trim]
  · rw [htoList] at hmem
    simpa using List.all_eq_true.mp List.all_takeWhile _ (mem_of_mem_trim hmem)
  · rcases hargs with ⟨-, hnil⟩ | ⟨rest, -, hread⟩
    · simp [hnil]
    · exact wellFormed_of_readList hread

/-! ### What is well-formed is read back -/

/-- The arguments of a display are cut apart where they were joined. -/
theorem scan_joined {a : List Char} {as : List (List Char)} (ha : Clean a) (has : ∀ b ∈ as, Clean b) :
    outside.Avoids (· = ')') (a ++ as.flatMap ([',', ' '] ++ ·)) ∧
      outside.run (a ++ as.flatMap ([',', ' '] ++ ·)) = outside ∧
      outside.pieces (a ++ as.flatMap ([',', ' '] ++ ·)) = a :: as.map (' ' :: ·) := by
  induction as generalizing a with
  | nil =>
    rw [List.flatMap_nil, List.append_nil]
    exact ⟨ha.avoids_close, ha.ends, pieces_of_avoids ha.avoids_comma⟩
  | cons b as ih =>
    obtain ⟨hb, has⟩ := List.forall_mem_cons.mp has
    -- The blank after a comma goes to the next piece, which is as clean with it.
    have hspace : blank [' '] = true := rfl
    have hblank : Clean (' ' :: b) := by
      have hcons := (clean_blank_append_iff hspace (show blank [] = true from rfl)).mpr hb
      rwa [List.append_nil] at hcons
    obtain ⟨havoids, hrun, hpieces⟩ := ih hblank has
    have hcomma : outside.step ',' = outside := step_other (by decide) (by decide) (by decide)
    rw [List.flatMap_cons, List.append_assoc]
    show outside.Avoids _ (a ++ ',' :: (' ' :: b ++ _)) ∧ outside.run (a ++ ',' :: (' ' :: b ++ _)) = _ ∧
      outside.pieces (a ++ ',' :: (' ' :: b ++ _)) = _
    rw [avoids_append, run_append, pieces_append ha.avoids_comma (isOutside_iff.mpr ha.ends), ha.ends,
      run_cons, Avoids, hcomma, hpieces, List.map_cons]
    exact ⟨⟨ha.avoids_close, fun hc => absurd hc.1 (by decide), havoids⟩, hrun, rfl⟩

theorem toList_argumentText (s : String) (ss : List String) :
    (argumentText (s :: ss)).toList = s.toList ++ (ss.map String.toList).flatMap ([',', ' '] ++ ·) := by
  rw [argumentText, String.toList_intercalate]
  induction ss generalizing s with
  | nil => simp
  | cons s' ss ih =>
    rw [List.map_cons, List.map_cons, List.intercalate_cons_cons, ← List.map_cons, ih, List.map_cons,
      List.flatMap_cons]
    simp

theorem readList_argumentText {a : Term} {as : List Term} (h : ∀ b ∈ a :: as, b.WellFormed) :
    readList text ((argumentText ((a :: as).map Term.text)).toList ++ [')']) = .ok (a :: as) := by
  obtain ⟨ha, has⟩ := List.forall_mem_cons.mp h
  rw [List.map_cons, toList_argumentText, List.map_map]
  have hclean : ∀ cs ∈ as.map (String.toList ∘ Term.text), Clean cs :=
    List.forall_mem_map.mpr fun b hb => (has b hb).clean
  obtain ⟨havoids, hrun, hpieces⟩ := scan_joined ha.clean hclean
  refine readList_ok_iff.mpr ⟨_, [], cutAtClose_append havoids (isOutside_iff.mpr hrun), rfl, .inr ⟨?_, ?_⟩⟩
  · rw [blank, List.all_append, Bool.and_eq_false_iff]
    exact .inl ha.not_blank
  · rw [hpieces, readArguments_ok_iff, List.forall_mem_cons, List.map_cons]
    refine ⟨⟨ha.not_blank, fun cs hcs => ?_⟩, ?_⟩
    · obtain ⟨b, hb, rfl⟩ : ∃ b ∈ as, ' ' :: b.text.toList = cs := by simpa using hcs
      rw [blank, List.all_cons, Bool.and_eq_false_iff]
      exact .inr (has b hb).not_blank
    · have hpiece : ∀ b ∈ as, Term.parse (String.ofList (' ' :: b.text.toList)) = b := fun b hb =>
        (has b hb).parse_text (by
          rw [String.toList_ofList, trim_cons_of_isBlank rfl, (has b hb).trim_text])
      have hpieces : as.map (fun b => Term.parse (String.ofList (' ' :: b.text.toList))) = as :=
        (List.map_congr_left hpiece).trans (List.map_id' as)
      simp only [String.ofList_toList, ha.parse_text ha.trim_text, List.map_map, Function.comp_def, hpieces]

theorem WellFormed.name_toList (h : p.WellFormed) :
    ∃ c cs, p.name.toList = c :: cs ∧ isBlank c = false := by
  have htrim : trim p.name.toList = p.name.toList := by rw [← toList_trimmed, h.trimmed_name]
  cases hname : p.name.toList with
  | nil => exact absurd (String.toList_eq_nil_iff.mp hname) h.name_ne
  | cons c cs =>
    rw [hname] at htrim
    exact ⟨c, cs, rfl, (trim_eq_self_iff.mp htrim).1 c rfl⟩

theorem parse_display_of_wellFormed (h : p.WellFormed) : parse p.display = .ok p := by
  have htrim : trim p.name.toList = p.name.toList := by rw [← toList_trimmed, h.trimmed_name]
  have hname : ∀ c ∈ p.name.toList, decide (c ≠ '(') = true := fun c hc =>
    decide_eq_true fun he => h.paren_not_mem (he ▸ hc)
  rw [parse_ok_iff]
  cases hargs : p.args with
  | nil =>
    obtain ⟨htake, hdrop⟩ := takeWhile_append_of_head? (r := []) hname (by simp)
    rw [List.append_nil] at htake hdrop
    rw [display, hargs, List.isEmpty_nil, if_pos rfl, htrim, htake, htrim, String.ofList_toList, hdrop]
    exact ⟨h.name_ne, rfl, .inl ⟨rfl, rfl⟩⟩
  | cons a as =>
    have hdisplay : p.display.toList =
        p.name.toList ++ '(' :: ((argumentText ((a :: as).map Term.text)).toList ++ [')']) := by
      rw [display, hargs]; simp
    obtain ⟨c, cs, hcs, hc⟩ := h.name_toList
    -- The display starts with the name and ends with a parenthesis, so nothing is trimmed.
    have hself : trim p.display.toList = p.display.toList := by
      rw [hdisplay]
      refine trim_eq_self ?_ ?_
      · rintro x hx
        rw [hcs, List.cons_append, List.head?_cons, Option.mem_some] at hx
        exact hx ▸ hc
      · intro x hx
        rw [← List.cons_append, ← List.append_assoc, List.getLast?_concat, Option.mem_some] at hx
        subst hx; rfl
    obtain ⟨htake, hdrop⟩ := takeWhile_append_of_head? hname
      (r := '(' :: ((argumentText ((a :: as).map Term.text)).toList ++ [')'])) (by simp)
    rw [hself, hdisplay, htake, hdrop, htrim, String.ofList_toList]
    exact ⟨h.name_ne, rfl, .inr ⟨_, rfl, readList_argumentText (hargs ▸ h.args)⟩⟩

/-- Exactly the well-formed predicates are read back from their display. Every predicate that is read is
well-formed, so its display stands for all the texts that it is read from. -/
theorem parse_display :
    (∀ p : Predicate, parse p.display = .ok p ↔ p.WellFormed) ∧
      (∀ text p, parse text = .ok p → p.WellFormed ∧ parse p.display = parse text) ∧
      ∀ text text' p q, parse text = .ok p → parse text' = .ok q → (p.display = q.display ↔ p = q) := by
  refine ⟨fun p => ⟨wellFormed_of_parse, parse_display_of_wellFormed⟩, fun text p h => ?_,
    fun text text' p q hp hq => ⟨fun hd => ?_, congrArg display⟩⟩
  · exact ⟨wellFormed_of_parse h, by rw [parse_display_of_wellFormed (wellFormed_of_parse h), h]⟩
  · have hback := parse_display_of_wellFormed (wellFormed_of_parse hp)
    rw [hd, parse_display_of_wellFormed (wellFormed_of_parse hq)] at hback
    exact (Except.ok.inj hback).symm

/-- Blanks between arguments do not show in the display; a comma in quotes or parentheses does. -/
theorem parse_display_nested_call :
    let p : Predicate := ⟨"f", [.const "g(a, b)", .const "\"x, y\"", .var "X"]⟩
    let q : Predicate := ⟨"f", [.const "g(a,b)", .const "\"x, y\"", .var "X"]⟩
    parse " f( g(a, b) ,\"x, y\",X )" = .ok p ∧ parse "f(g(a,b), \"x, y\", X)" = .ok q ∧
      (p.WellFormed ∧ parse p.display = parse " f( g(a, b) ,\"x, y\",X )") ∧
      (p.display = q.display ↔ p = q) :=
  have hp : parse " f( g(a, b) ,\"x, y\",X )" =
      .ok ⟨"f", [.const "g(a, b)", .const "\"x, y\"", .var "X"]⟩ := rfl
  have hq : parse "f(g(a,b), \"x, y\", X)" =
      .ok ⟨"f", [.const "g(a,b)", .const "\"x, y\"", .var "X"]⟩ := rfl
  ⟨hp, hq, parse_display.2.1 _ _ hp, parse_display.2.2 _ _ _ _ hp hq⟩

end Predicate

end TestScribe

import Mathlib.Data.List.Basic
import TestScribe.Proofs.Predicate.Unification
import TestScribe.Proofs.Text.Rewriting

/-!
# The identifiers of a text and the gaps between them

A `Reading` cuts a text into identifiers and the gaps around them. Every text has exactly one that is
`WellFormed`, and `reading` finds it: there an identifier starts at the first letter or underscore and is as long
as it can be. What `mapTokens` does is to write the reading down again with other texts in the place of the
identifiers (`write_reading`), and `Bindings.substituteText` writes the bound values there
(`substituteText_reading`).
-/

namespace TestScribe

namespace Text

variable {f g : List Char → List Char} {c x : Char} {cs cs' w : List Char}

def IsIdentifier (w : List Char) : Prop :=
  ∃ c cs, w = c :: cs ∧ isTokenHead c = true ∧ ∀ x ∈ cs, isTokenTail x = true

theorem isTokenTail_of_isTokenHead (h : isTokenHead c = true) : isTokenTail c = true := by
  rw [isTokenHead, Bool.or_eq_true] at h
  rw [isTokenTail, Char.isAlphanum, Bool.or_eq_true, Bool.or_eq_true]
  exact h.imp .inl id

theorem isIdentifier_takeWhile (hc : isTokenHead c = true) : IsIdentifier (c :: cs.takeWhile isTokenTail) :=
  ⟨c, _, rfl, hc, List.all_eq_true.mp List.all_takeWhile⟩

theorem isTokenHead_eq_false (h : isTokenTail c = false) : isTokenHead c = false := by
  rw [Bool.eq_false_iff] at h ⊢
  exact fun hc => h (isTokenTail_of_isTokenHead hc)

/-- A gap, and then identifiers, each with the gap after it. -/
structure Reading where
  first : List Char
  rest : List (List Char × List Char)
deriving DecidableEq

namespace Reading

variable {r : Reading}

/-- The gaps as they are, and what `f` makes of the identifiers. -/
def write (f : List Char → List Char) (r : Reading) : List Char :=
  r.first ++ r.rest.flatMap fun (w, gap) => f w ++ gap

def text (r : Reading) : List Char :=
  r.write id

def identifiers (r : Reading) : List (List Char) :=
  r.rest.map Prod.fst

structure WellFormed (r : Reading) : Prop where
  identifier : ∀ e ∈ r.rest, IsIdentifier e.1
  no_head_first : ∀ c ∈ r.first, isTokenHead c = false
  no_head : ∀ e ∈ r.rest, ∀ c ∈ e.2, isTokenHead c = false
  /-- An identifier does not go on in the gap after it. -/
  ended : ∀ e ∈ r.rest, ∀ c ∈ e.2.head?, isTokenTail c = false
  /-- A gap that another identifier follows is not empty. -/
  apart : r.rest.Pairwise fun e _ => e.2 ≠ []

/-- The reading of a text with one more character in front that starts no identifier. -/
def pushChar (c : Char) (r : Reading) : Reading :=
  ⟨c :: r.first, r.rest⟩

/-- The reading of a text with one more identifier in front. -/
def pushToken (w : List Char) (r : Reading) : Reading :=
  ⟨[], (w, r.first) :: r.rest⟩

theorem write_pushChar : (r.pushChar c).write f = c :: r.write f :=
  rfl

theorem write_pushToken : (r.pushToken w).write f = f w ++ r.write f := by
  simp [write, pushToken]

theorem identifiers_pushChar : (r.pushChar c).identifiers = r.identifiers :=
  rfl

theorem identifiers_pushToken : (r.pushToken w).identifiers = w :: r.identifiers :=
  rfl

theorem write_congr (h : ∀ w ∈ r.identifiers, f w = g w) : r.write f = r.write g := by
  have hrest : ∀ e ∈ r.rest, f e.1 ++ e.2 = g e.1 ++ e.2 := fun e he => by
    rw [h e.1 (List.mem_map_of_mem he)]
  exact congrArg (r.first ++ ·) (List.flatMap_congr hrest)

theorem WellFormed.isIdentifier (h : r.WellFormed) (hw : w ∈ r.identifiers) : IsIdentifier w := by
  obtain ⟨e, he, rfl⟩ := List.mem_map.mp hw
  exact h.identifier e he

theorem wellFormed_nil : WellFormed ⟨[], []⟩ := by
  constructor <;> simp

theorem wellFormed_pushChar_iff : (r.pushChar c).WellFormed ↔ isTokenHead c = false ∧ r.WellFormed := by
  constructor
  · intro h
    obtain ⟨hc, hfirst⟩ := List.forall_mem_cons.mp h.no_head_first
    exact ⟨hc, h.identifier, hfirst, h.no_head, h.ended, h.apart⟩
  · rintro ⟨hc, h⟩
    exact ⟨h.identifier, List.forall_mem_cons.mpr ⟨hc, h.no_head_first⟩, h.no_head, h.ended, h.apart⟩

/-- What an identifier needs after it, told of the text and not of the gap: the next identifier may not go on
with it either. -/
theorem ended_iff (h : r.WellFormed) :
    (∀ c ∈ r.text.head?, isTokenTail c = false) ↔
      (∀ c ∈ r.first.head?, isTokenTail c = false) ∧ (r.first = [] → r.rest = []) := by
  obtain ⟨first, rest⟩ := r
  cases first with
  | cons c first => simp [text, write]
  | nil =>
    cases rest with
    | nil => simp [text, write]
    | cons e rest =>
      obtain ⟨c, cs, hw, hc, -⟩ := h.identifier e List.mem_cons_self
      simp [text, write, hw, isTokenTail_of_isTokenHead hc]

theorem wellFormed_pushToken_iff :
    (r.pushToken w).WellFormed ↔
      IsIdentifier w ∧ (∀ c ∈ r.text.head?, isTokenTail c = false) ∧ r.WellFormed := by
  constructor
  · intro h
    obtain ⟨hw, hidentifier⟩ := List.forall_mem_cons.mp h.identifier
    obtain ⟨hfirst, hno_head⟩ := List.forall_mem_cons.mp h.no_head
    obtain ⟨hend, hended⟩ := List.forall_mem_cons.mp h.ended
    obtain ⟨hapart, hpairs⟩ := List.pairwise_cons.mp h.apart
    have hr : r.WellFormed := ⟨hidentifier, hfirst, hno_head, hended, hpairs⟩
    have hlast : r.first = [] → r.rest = [] := fun hnil =>
      List.eq_nil_iff_forall_not_mem.mpr fun e he => hapart e he hnil
    exact ⟨hw, (ended_iff hr).mpr ⟨hend, hlast⟩, hr⟩
  · rintro ⟨hw, htext, h⟩
    obtain ⟨hend, hlast⟩ := (ended_iff h).mp htext
    have hapart : ∀ e ∈ r.rest, r.first ≠ [] := fun e he hnil => by
      rw [hlast hnil] at he
      cases he
    exact ⟨List.forall_mem_cons.mpr ⟨hw, h.identifier⟩, by simp [pushToken],
      List.forall_mem_cons.mpr ⟨h.no_head_first, h.no_head⟩, List.forall_mem_cons.mpr ⟨hend, h.ended⟩,
      List.pairwise_cons.mpr ⟨hapart, h.apart⟩⟩

end Reading

open Reading

/-- The reading from left to right. -/
def reading : List Char → Reading
  | [] => ⟨[], []⟩
  | c :: cs =>
    if isTokenHead c then (reading (cs.dropWhile isTokenTail)).pushToken (c :: cs.takeWhile isTokenTail)
    else (reading cs).pushChar c
termination_by cs => cs.length
decreasing_by
  · have := (List.dropWhile_sublist isTokenTail (l := cs)).length_le
    simp only [List.length_cons]; omega
  · simp

theorem reading_cons_of_not_head (hc : isTokenHead c = false) :
    reading (c :: cs) = (reading cs).pushChar c := by
  rw [reading, hc]
  rfl

/-- A gap in front of a text is part of its first gap. -/
theorem reading_gap_append (hcs : ∀ x ∈ cs, isTokenHead x = false) :
    reading (cs ++ cs') = ⟨cs ++ (reading cs').first, (reading cs').rest⟩ := by
  induction cs with
  | nil => rfl
  | cons c cs ih =>
    obtain ⟨hc, hcs⟩ := List.forall_mem_cons.mp hcs
    rw [List.cons_append, reading_cons_of_not_head hc, ih hcs]
    rfl

theorem reading_identifier (hw : IsIdentifier w) (hcs : ∀ x ∈ cs.head?, isTokenTail x = false) :
    reading (w ++ cs) = (reading cs).pushToken w := by
  obtain ⟨c, w, rfl, hc, hw⟩ := hw
  obtain ⟨htake, hdrop⟩ := takeWhile_append_of_head? hw hcs
  rw [List.cons_append, reading, if_pos hc, htake, hdrop]

theorem write_reading (f : List Char → List Char) (cs : List Char) :
    (reading cs).write f = mapTokens f cs := by
  fun_induction reading cs with
  | case1 => rw [mapTokens]; rfl
  | case2 c cs hc ih => rw [write_pushToken, ih, mapTokens, if_pos hc]
  | case3 c cs hc ih => rw [write_pushChar, ih, mapTokens, if_neg hc]

theorem text_reading (cs : List Char) : (reading cs).text = cs := by
  rw [text, write_reading, mapTokens_of_eq_self (f := id) fun _ => rfl]

theorem wellFormed_reading (cs : List Char) : (reading cs).WellFormed := by
  fun_induction reading cs with
  | case1 => exact wellFormed_nil
  | case2 c cs hc ih =>
    refine wellFormed_pushToken_iff.mpr ⟨isIdentifier_takeWhile hc, ?_, ih⟩
    rw [text_reading]
    exact fun x hx => mem_head?_dropWhile hx
  | case3 c cs hc ih => exact wellFormed_pushChar_iff.mpr ⟨Bool.eq_false_iff.mpr hc, ih⟩

/-- No other reading of the text is well-formed. -/
theorem reading_text : ∀ {first : List Char} {rest : List (List Char × List Char)},
    WellFormed ⟨first, rest⟩ → reading (text ⟨first, rest⟩) = ⟨first, rest⟩
  | [], [], _ => by rw [show text ⟨[], []⟩ = [] from rfl, reading]
  | c :: first, rest, h => by
    obtain ⟨hc, h⟩ := (wellFormed_pushChar_iff (r := ⟨first, rest⟩)).mp h
    have htext : text ⟨c :: first, rest⟩ = c :: text ⟨first, rest⟩ := rfl
    rw [htext, reading_cons_of_not_head hc, reading_text h]
    rfl
  | [], (w, gap) :: rest, h => by
    obtain ⟨hw, hend, h⟩ := (wellFormed_pushToken_iff (r := ⟨gap, rest⟩)).mp h
    have htext : text ⟨[], (w, gap) :: rest⟩ = w ++ text ⟨gap, rest⟩ := write_pushToken (r := ⟨gap, rest⟩)
    rw [htext, reading_identifier hw hend, reading_text h]
    rfl
termination_by first rest => (rest.length, first.length)

/-! ### Texts put together -/

/-- An identifier of the first text cannot go on in the second, so the two are read apart. -/
theorem reading_append (hcs' : ∀ x ∈ cs'.head?, isTokenTail x = false) :
    (reading (cs ++ cs')).write f = (reading cs).write f ++ (reading cs').write f ∧
      (reading (cs ++ cs')).identifiers = (reading cs).identifiers ++ (reading cs').identifiers := by
  fun_induction reading cs with
  | case1 => exact ⟨rfl, rfl⟩
  | case2 c cs hc ih =>
    have hend : ∀ x ∈ (cs.dropWhile isTokenTail ++ cs').head?, isTokenTail x = false := by
      intro x hx
      rw [List.head?_append, Option.mem_def, Option.or_eq_some_iff] at hx
      rcases hx with hx | ⟨-, hx⟩
      · exact mem_head?_dropWhile hx
      · exact hcs' x hx
    have hsplit : c :: cs ++ cs' = c :: cs.takeWhile isTokenTail ++ (cs.dropWhile isTokenTail ++ cs') := by
      rw [List.cons_append, List.cons_append, ← List.append_assoc, List.takeWhile_append_dropWhile]
    rw [hsplit, reading_identifier (isIdentifier_takeWhile hc) hend, write_pushToken, write_pushToken,
      identifiers_pushToken, identifiers_pushToken, ih.1, ih.2, List.append_assoc, List.cons_append]
    exact ⟨rfl, rfl⟩
  | case3 c cs hc ih =>
    rw [List.cons_append, reading_cons_of_not_head (Bool.eq_false_iff.mpr hc), write_pushChar, write_pushChar,
      identifiers_pushChar, identifiers_pushChar, ih.1, ih.2, List.cons_append]
    exact ⟨rfl, rfl⟩

theorem mapTokens_append (hcs' : ∀ x ∈ cs'.head?, isTokenTail x = false) :
    mapTokens f (cs ++ cs') = mapTokens f cs ++ mapTokens f cs' := by
  rw [← write_reading, ← write_reading, ← write_reading, (reading_append hcs').1]

theorem reading_of_isIdentifier (hw : IsIdentifier w) : reading w = ⟨[], [(w, [])]⟩ := by
  have hreading : reading (w ++ []) = (reading []).pushToken w := reading_identifier hw (by simp)
  rwa [List.append_nil, reading] at hreading

theorem mapTokens_of_isIdentifier (hw : IsIdentifier w) : mapTokens f w = f w := by
  rw [← write_reading, reading_of_isIdentifier hw]
  simp [write]

end Text

/-- The identifiers that occur in a text, from left to right. -/
def identifiers (s : String) : List String :=
  (Text.reading s.toList).identifiers.map String.ofList

open Text Text.Reading

variable {b : Bindings} {s t x : String}

theorem identifiers_empty : identifiers "" = [] := by
  rw [identifiers, String.toList_empty, reading]
  rfl

/-- The text keeps apart what stands before and after it: no identifier goes on in it, and none starts in it. -/
structure Separates (sep : String) : Prop where
  ends : ∃ c ∈ sep.toList.head?, isTokenTail c = false
  no_head : ∀ c ∈ sep.toList, isTokenHead c = false

theorem Separates.head?_append {sep : String} (h : Separates sep) (cs : List Char) :
    ∀ c ∈ (sep.toList ++ cs).head?, isTokenTail c = false := by
  obtain ⟨c, hc, htail⟩ := h.ends
  intro x hx
  rw [List.head?_append, hc, Option.some_or, Option.mem_some] at hx
  rwa [← hx]

theorem identifiers_separated {sep : String} (h : Separates sep) :
    identifiers (s ++ sep ++ t) = identifiers s ++ identifiers t := by
  rw [identifiers, String.toList_append, String.toList_append, List.append_assoc,
    (reading_append (f := id) (h.head?_append _)).2, reading_gap_append h.no_head, List.map_append]
  rfl

theorem identifiers_of_isIdentifier (hx : IsIdentifier x.toList) : identifiers x = [x] := by
  rw [identifiers, reading_of_isIdentifier hx]
  simp [Reading.identifiers]

namespace Bindings

theorem tokenText_eq (b : Bindings) (w : List Char) : b.tokenText w = (b.assign (String.ofList w)).toList := by
  rw [tokenText, assign]
  cases b.get? (String.ofList w) with
  | none => exact String.toList_ofList.symm
  | some v => rfl

theorem toList_substituteText (b : Bindings) (t : String) :
    (b.substituteText t).toList = mapTokens b.tokenText t.toList :=
  (substituted_iff.mpr rfl).eq_mapTokens

theorem substituteText_separated {sep : String} (h : Separates sep) :
    b.substituteText (s ++ sep ++ t) = b.substituteText s ++ sep ++ b.substituteText t := by
  have hgap : mapTokens b.tokenText (sep.toList ++ t.toList) = sep.toList ++ mapTokens b.tokenText t.toList := by
    rw [← write_reading, reading_gap_append h.no_head, ← write_reading]
    exact List.append_assoc ..
  rw [← String.toList_inj, toList_substituteText, String.toList_append, String.toList_append, List.append_assoc,
    mapTokens_append (h.head?_append _), hgap, String.toList_append, String.toList_append, toList_substituteText,
    toList_substituteText, List.append_assoc]

theorem substituteText_of_isIdentifier (hx : IsIdentifier x.toList) : b.substituteText x = b.assign x := by
  rw [← String.toList_inj, toList_substituteText, mapTokens_of_isIdentifier hx, tokenText_eq, String.ofList_toList]

/-- A text stays as it is when its identifiers do. -/
theorem substituteText_eq_self (h : ∀ w ∈ identifiers t, b.assign w = w) : b.substituteText t = t := by
  have hself : ∀ w ∈ (reading t.toList).identifiers, b.tokenText w = id w := fun w hw => by
    rw [tokenText_eq, h _ (List.mem_map_of_mem hw), String.toList_ofList, id]
  rw [← String.toList_inj, toList_substituteText, ← write_reading, write_congr hself]
  exact text_reading t.toList

theorem substituteText_empty (b : Bindings) : b.substituteText "" = "" :=
  substituteText_eq_self (by rw [identifiers_empty]; simp)

/-- A text has exactly one reading as identifiers with gaps between them, and substitution writes it again with
the bound values in the place of the identifiers. No other character changes, and values are not read again. -/
theorem substituteText_reading (b : Bindings) (t : String) :
    (∃! r : Reading, r.WellFormed ∧ r.text = t.toList) ∧
      (∀ r : Reading, r.WellFormed → r.text = t.toList →
        (b.substituteText t).toList = r.write fun w => (b.assign (String.ofList w)).toList) ∧
      b.substituteText t = String.ofList (mapTokens b.tokenText t.toList) := by
  have hunique (r : Reading) (hr : r.WellFormed) (ht : r.text = t.toList) : r = reading t.toList := by
    rw [← ht, reading_text hr]
  refine ⟨⟨reading t.toList, ⟨wellFormed_reading _, text_reading _⟩, fun r hr => hunique r hr.1 hr.2⟩, ?_, ?_⟩
  · intro r hr ht
    rw [hunique r hr ht, write_reading, toList_substituteText, funext b.tokenText_eq]
  · rw [← String.toList_inj, toList_substituteText, String.toList_ofList]

/-- A digit starts no identifier, so one may follow it at once. -/
theorem substituteText_reading_digits :
    let r : Reading := ⟨['9'], [(['A'], ['+', '1']), (['b', '_', '1'], [' ']), (['X'], [])]⟩
    let b : Bindings := Dict.ofList [("A", "X1"), ("X", "")]
    (r.WellFormed ∧ r.text = "9A+1b_1 X".toList) ∧ b.substituteText "9A+1b_1 X" = "9X1+1b_1 " ∧
      (b.substituteText "9A+1b_1 X").toList = r.write fun w => (b.assign (String.ofList w)).toList := by
  intro r b
  have hr : reading "9A+1b_1 X".toList = r := by decide +kernel
  have hwell : r.WellFormed := hr ▸ wellFormed_reading _
  have htext : r.text = "9A+1b_1 X".toList := hr ▸ text_reading _
  exact ⟨⟨hwell, htext⟩, by decide +kernel, (substituteText_reading b "9A+1b_1 X").2.1 r hwell htext⟩

end Bindings

end TestScribe

import TestScribe.Bindings

/-!
# Rewriting the identifiers of a text

`Rewritten f cs ds` reads the text `cs` as identifiers and what stands between them: `ds` has `f w` in
the place of each identifier `w` and every other character as it was. An identifier is as long as it can
be, so the reading is unique and `mapTokens f` is the function of the relation (`rewritten_iff`).
`Substituted` is the same for templates, and `Bindings.substituteText` is its function.
-/

namespace TestScribe

namespace Text

inductive Rewritten (f : List Char → List Char) : List Char → List Char → Prop
  | done : Rewritten f [] []
  /-- A character that starts no identifier stays. -/
  | keep {c : Char} {cs ds : List Char} (hc : isTokenHead c = false) (h : Rewritten f cs ds) :
      Rewritten f (c :: cs) (c :: ds)
  /-- An identifier that cannot be continued is replaced. -/
  | token {c : Char} {w cs ds : List Char} (hc : isTokenHead c = true)
      (hw : ∀ x ∈ w, isTokenTail x = true) (hcs : ∀ x ∈ cs.head?, isTokenTail x = false)
      (h : Rewritten f cs ds) : Rewritten f (c :: (w ++ cs)) (f (c :: w) ++ ds)

variable {f : List Char → List Char} {cs ds : List Char}

theorem mem_head?_dropWhile {p : Char → Bool} :
    ∀ {l : List Char} {x : Char}, x ∈ (l.dropWhile p).head? → p x = false
  | [], x, h => by simp at h
  | c :: l, x, h => by
    rw [List.dropWhile_cons] at h
    split at h
    · exact mem_head?_dropWhile h
    · next hc =>
      obtain rfl : c = x := by simpa using h
      simpa using hc

theorem takeWhile_append_of_head? {p : Char → Bool} {w r : List Char} (hw : ∀ x ∈ w, p x = true)
    (hr : ∀ x ∈ r.head?, p x = false) : (w ++ r).takeWhile p = w ∧ (w ++ r).dropWhile p = r := by
  rw [List.takeWhile_append_of_pos hw, List.dropWhile_append_of_pos hw]
  cases r with
  | nil => simp
  | cons x r => simp [hr x (by simp)]

theorem rewritten_mapTokens (f : List Char → List Char) (cs : List Char) :
    Rewritten f cs (mapTokens f cs) := by
  fun_induction mapTokens f cs with
  | case1 => exact .done
  | case2 c cs hc ih =>
    have h := Rewritten.token (w := cs.takeWhile isTokenTail) hc
      (List.all_eq_true.mp List.all_takeWhile) (fun x hx => mem_head?_dropWhile hx) ih
    rwa [List.takeWhile_append_dropWhile] at h
  | case3 c cs hc ih => exact .keep (by simpa using hc) ih

theorem Rewritten.eq_mapTokens (h : Rewritten f cs ds) : ds = mapTokens f cs := by
  induction h with
  | done => rw [mapTokens]
  | keep hc h ih => rw [mapTokens, hc, ih]; simp
  | token hc hw hcs h ih =>
    obtain ⟨htake, hdrop⟩ := takeWhile_append_of_head? hw hcs
    rw [mapTokens, if_pos hc, htake, hdrop, ih]

theorem rewritten_iff : Rewritten f cs ds ↔ ds = mapTokens f cs :=
  ⟨Rewritten.eq_mapTokens, fun h => h ▸ rewritten_mapTokens f cs⟩

theorem mapTokens_of_eq_self (hf : ∀ w, f w = w) (cs : List Char) : mapTokens f cs = cs := by
  fun_induction mapTokens f cs with
  | case1 => rfl
  | case2 c cs hc ih => rw [ih, hf, List.cons_append, List.takeWhile_append_dropWhile]
  | case3 c cs hc ih => rw [ih]

end Text

/-- The text that stands for an identifier: the value given to it, or else the identifier. -/
def identifierText (value? : String → Option String) (w : List Char) : List Char :=
  match value? (String.ofList w) with
  | some value => value.toList
  | none => w

/-- `code` is `template` with every identifier that has a value replaced by the value, all at once. -/
def Substituted (value? : String → Option String) (template code : String) : Prop :=
  Text.Rewritten (identifierText value?) template.toList code.toList

theorem Substituted.unique {value? : String → Option String} {template code code' : String}
    (h : Substituted value? template code) (h' : Substituted value? template code') :
    code = code' :=
  String.toList_inj.mp (h.eq_mapTokens.trans h'.eq_mapTokens.symm)

theorem substituted_iff {b : Bindings} {template code : String} :
    Substituted b.get? template code ↔ code = b.substituteText template := by
  have htoken : identifierText b.get? = b.tokenText := rfl
  rw [Substituted, htoken, Text.rewritten_iff, Bindings.substituteText]
  split
  · next hb =>
    have hself (w : List Char) : b.tokenText w = w := by
      rw [Bindings.tokenText, Dict.get?_of_isEmpty hb]
    rw [Text.mapTokens_of_eq_self hself, String.toList_inj]
  · rw [← String.toList_inj, String.toList_ofList]

end TestScribe

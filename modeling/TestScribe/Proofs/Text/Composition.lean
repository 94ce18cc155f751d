import TestScribe.Proofs.Text.Identifiers

/-!
# One substitution after another

Two substitutions of a text, one after the other, are one substitution by `Bindings.andThen`. What this rests on
is that a value can neither run together with the text around it nor cut an identifier off there: what follows
an identifier in a template cannot go on with one, and still cannot when the template is rewritten
(`head?_mapTokens`). Digits in front of a value change nothing, since no identifier starts with them.
-/

namespace TestScribe

namespace Text

variable {f g : List Char → List Char} {cs : List Char}

/-- What cannot go on with an identifier cannot do so when its identifiers are rewritten: it does not start with
one. -/
theorem head?_mapTokens (h : ∀ x ∈ cs.head?, isTokenTail x = false) :
    ∀ x ∈ (mapTokens f cs).head?, isTokenTail x = false := by
  cases cs with
  | nil => rw [mapTokens]; simp
  | cons c cs =>
    have hc : isTokenTail c = false := h c rfl
    rw [mapTokens, isTokenHead_eq_false hc]
    exact fun x hx => by rwa [← Option.some.inj hx]

theorem mapTokens_mapTokens (f g : List Char → List Char) (cs : List Char) :
    mapTokens g (mapTokens f cs) = mapTokens (fun w => mapTokens g (f w)) cs := by
  fun_induction mapTokens f cs with
  | case1 => rw [mapTokens, mapTokens]
  | case2 c cs hc ih =>
    have hrest : ∀ x ∈ (mapTokens f (cs.dropWhile isTokenTail)).head?, isTokenTail x = false :=
      head?_mapTokens fun x hx => mem_head?_dropWhile hx
    rw [mapTokens_append hrest, ih, mapTokens, if_pos hc]
  | case3 c cs hc ih => rw [mapTokens, if_neg hc, ih, mapTokens, if_neg hc]

theorem mapTokens_congr (h : ∀ w, IsIdentifier w → f w = g w) : mapTokens f cs = mapTokens g cs := by
  rw [← write_reading, ← write_reading]
  exact Reading.write_congr fun w hw => h w ((wellFormed_reading cs).isIdentifier hw)

end Text

namespace Bindings

open Text

variable {b b' : Bindings}

/-- Bindings that do at once what `b` does and then `b'`: the values of `b` are themselves substituted. -/
def andThen (b b' : Bindings) : Bindings :=
  b'.merge (b.mapValues b'.substituteText)

theorem get?_andThen (b b' : Bindings) (x : String) :
    (b.andThen b').get? x = ((b.get? x).map b'.substituteText).or (b'.get? x) := by
  rw [andThen, Dict.get?_merge, Dict.get?_mapValues]

/-- An identifier becomes the same in one step as in two. -/
theorem tokenText_andThen {w : List Char} (hw : IsIdentifier w) :
    (b.andThen b').tokenText w = mapTokens b'.tokenText (b.tokenText w) := by
  cases hx : b.get? (String.ofList w) with
  | none =>
    have hkept : b.tokenText w = w := by rw [tokenText, hx]
    have hthen : (b.andThen b').get? (String.ofList w) = b'.get? (String.ofList w) := by
      rw [get?_andThen, hx, Option.map_none, Option.none_or]
    rw [hkept, mapTokens_of_isIdentifier hw, tokenText, hthen, tokenText]
  | some v =>
    have hvalue : b.tokenText w = v.toList := by rw [tokenText, hx]
    have hthen : (b.andThen b').get? (String.ofList w) = some (b'.substituteText v) := by
      rw [get?_andThen, hx, Option.map_some, Option.some_or]
    rw [hvalue, tokenText, hthen]
    exact toList_substituteText b' v

theorem substituteText_substituteText (b b' : Bindings) (t : String) :
    b'.substituteText (b.substituteText t) = (b.andThen b').substituteText t := by
  rw [← String.toList_inj, toList_substituteText, toList_substituteText, toList_substituteText, mapTokens_mapTokens]
  exact mapTokens_congr fun w hw => (tokenText_andThen hw).symm

/-- No value contains an identifier that is bound to another text. -/
def Settled (b : Bindings) : Prop :=
  ∀ x v, b.get? x = some v → ∀ w ∈ identifiers v, ∀ u, b.get? w = some u → u = w

theorem Settled.substituteText_value (h : b.Settled) {x v : String} (hx : b.get? x = some v) :
    b.substituteText v = v := by
  refine substituteText_eq_self fun w hw => ?_
  rw [assign]
  cases hu : b.get? w with
  | none => rfl
  | some u => exact h x v hx w hw u hu

theorem Settled.andThen_self (h : b.Settled) : b.andThen b = b := by
  refine Dict.ext fun x => ?_
  rw [get?_andThen]
  cases hx : b.get? x with
  | none => rfl
  | some v => rw [Option.map_some, Option.some_or, h.substituteText_value hx]

/-- Substituting twice is substituting once, by bindings whose values are those of the first with the second
substituted in them. So it changes nothing to substitute again when no value contains an identifier that is bound
to another text. -/
theorem substituteText_andThen :
    (∀ b b' : Bindings,
      (∀ x, (b.andThen b').get? x = ((b.get? x).map b'.substituteText).or (b'.get? x)) ∧
        ∀ t, b'.substituteText (b.substituteText t) = (b.andThen b').substituteText t) ∧
      ∀ b : Bindings, b.Settled → ∀ t, b.substituteText (b.substituteText t) = b.substituteText t := by
  refine ⟨fun b b' => ⟨get?_andThen b b', substituteText_substituteText b b'⟩, fun b hb t => ?_⟩
  rw [substituteText_substituteText, hb.andThen_self]

/-- The value of `A` starts with a digit and follows one, and the value of `B` is empty. -/
theorem substituteText_andThen_digits :
    let b : Bindings := Dict.ofList [("A", "1C"), ("B", "")]
    let b' : Bindings := Dict.ofList [("C", "x9")]
    let kept : Bindings := Dict.ofList [("X", "acc1+Y"), ("Y", "Y")]
    b.substituteText "9A(B)A" = "91C()1C" ∧ b'.substituteText "91C()1C" = "91x9()1x9" ∧
      b'.substituteText (b.substituteText "9A(B)A") = (b.andThen b').substituteText "9A(B)A" ∧
      kept.Settled ∧ kept.substituteText (kept.substituteText "f(X)") = kept.substituteText "f(X)" := by
  intro b b' kept
  have hkept : kept.Settled := by
    intro x v hx w hw u hu
    rw [show kept = ((∅ : Bindings).insert "X" "acc1+Y").insert "Y" "Y" from rfl] at hx hu
    rw [Dict.get?_insert, Dict.get?_insert] at hx hu
    split at hx
    · cases hx
      obtain rfl : w = "Y" := by simpa [show identifiers "Y" = ["Y"] by decide +kernel] using hw
      exact (Option.some.inj hu).symm
    · split at hx
      · cases hx
        have hread : identifiers "acc1+Y" = ["acc1", "Y"] := by decide +kernel
        rw [hread] at hw
        rcases List.mem_pair.mp hw with rfl | rfl
        · cases hu
        · exact (Option.some.inj hu).symm
      · cases hx
  obtain ⟨hthen, htwice⟩ := substituteText_andThen
  exact ⟨by decide +kernel, by decide +kernel, (hthen b b').2 _, hkept, htwice kept hkept _⟩

end Bindings

end TestScribe

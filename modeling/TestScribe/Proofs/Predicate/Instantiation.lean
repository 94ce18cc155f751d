import TestScribe.Model
import TestScribe.Proofs.Predicate.RoundTrip
import TestScribe.Proofs.Text.Identifiers

/-!
# Instantiating a predicate in its text

A predicate is instantiated term by term (`Bindings.substitute`) or in its display
(`Bindings.substituteText`). Both give the same call (`substituteText_display`): the commas and parentheses of the
display keep its arguments apart, and what was read as a variable is one identifier from end to end
(`Term.WellFormed.isIdentifier`).
-/

namespace TestScribe

open Text

theorem isIdentifier_of_isVariableName {x : String} (h : isVariableName x = true) : IsIdentifier x.toList := by
  rw [isVariableName] at h
  split at h
  · cases h
  · next c cs hx =>
    rw [Bool.and_eq_true, Bool.or_eq_true] at h
    have hc : isTokenHead c = true := by
      show (c.isUpper || c.isLower || c == '_') = true
      rw [Bool.or_eq_true, Bool.or_eq_true]
      exact h.1.imp .inl id
    exact ⟨c, cs, hx, hc, List.all_eq_true.mp h.2⟩

theorem Term.WellFormed.isIdentifier {x : String} (h : (Term.var x).WellFormed) : IsIdentifier x.toList :=
  isIdentifier_of_isVariableName h.isVariable_eq.symm

/-! ### The separators of a display -/

theorem separates_open : Separates "(" :=
  ⟨⟨'(', rfl, rfl⟩, List.forall_mem_singleton.mpr rfl⟩

theorem separates_comma : Separates ", " :=
  ⟨⟨',', rfl, rfl⟩, List.forall_mem_cons.mpr ⟨rfl, List.forall_mem_singleton.mpr rfl⟩⟩

theorem separates_close : Separates ")" :=
  ⟨⟨')', rfl, rfl⟩, List.forall_mem_singleton.mpr rfl⟩

theorem identifiers_argumentText (args : List String) :
    identifiers (argumentText args) = args.flatMap identifiers := by
  rw [argumentText]
  induction args with
  | nil => exact identifiers_empty
  | cons s args ih =>
    cases args with
    | nil => simp
    | cons s' args =>
      rw [String.intercalate_cons_cons, identifiers_separated separates_comma, ih]
      exact List.flatMap_cons.symm

theorem identifiers_defaultCall (name : String) (args : List String) :
    identifiers (defaultCall name args) = identifiers name ++ args.flatMap identifiers := by
  rw [defaultCall, ← String.append_empty (s := _ ++ ")"), identifiers_separated separates_close,
    identifiers_separated separates_open, identifiers_argumentText, identifiers_empty, List.append_nil]

namespace Bindings

variable {b : Bindings} {p : Predicate} {text : String}

theorem substituteText_argumentText (b : Bindings) (args : List String) :
    b.substituteText (argumentText args) = argumentText (args.map b.substituteText) := by
  rw [argumentText, argumentText]
  induction args with
  | nil => exact b.substituteText_empty
  | cons s args ih =>
    cases args with
    | nil => simp
    | cons s' args =>
      rw [String.intercalate_cons_cons, substituteText_separated separates_comma, ih, List.map_cons, List.map_cons,
        List.map_cons, String.intercalate_cons_cons]

theorem substituteText_defaultCall (b : Bindings) (name : String) (args : List String) :
    b.substituteText (defaultCall name args) =
      defaultCall (b.substituteText name) (args.map b.substituteText) := by
  rw [defaultCall, ← String.append_empty (s := _ ++ ")"), substituteText_separated separates_close,
    substituteText_separated separates_open, substituteText_argumentText, substituteText_empty, String.append_empty,
    defaultCall]

theorem substituteText_of_unbound {s : String} (h : ∀ w ∈ identifiers s, b.get? w = none) :
    b.substituteText s = s :=
  substituteText_eq_self fun w hw => by rw [assign, h w hw, Option.getD_none]

/-- Substituting in the text of an argument gives its value. -/
theorem substituteText_text {a : Term} (ha : a.WellFormed)
    (hconst : ∀ c, a = .const c → ∀ w ∈ identifiers c, b.get? w = none) : b.substituteText a.text = b.value a := by
  cases a with
  | var x => exact substituteText_of_isIdentifier ha.isIdentifier
  | const c => exact substituteText_of_unbound (hconst c rfl)

/-- Let neither the name nor a constant argument of a predicate that was read hold a bound identifier. Then
substituting in its display gives the call of its name with the instantiated arguments, and every variable is one
of the identifiers that the substitution goes through. -/
theorem substituteText_display (b : Bindings) (hp : Predicate.parse text = .ok p) (harity : 0 < p.arity)
    (hname : ∀ w ∈ identifiers p.name, b.get? w = none)
    (hconst : ∀ c, .const c ∈ p.args → ∀ w ∈ identifiers c, b.get? w = none) :
    b.substituteText p.display = defaultCall p.name (b.substitute p) ∧
      ∀ x, .var x ∈ p.args → x ∈ identifiers p.display := by
  have hargs : ∀ a ∈ p.args, a.WellFormed := (Predicate.wellFormed_of_parse hp).args
  have hne : ¬ p.args.isEmpty = true := fun hempty => by
    rw [Predicate.arity, List.isEmpty_iff.mp hempty] at harity
    exact absurd harity (Nat.lt_irrefl 0)
  have hdisplay : p.display = defaultCall p.name (p.args.map Term.text) := if_neg hne
  rw [hdisplay]
  constructor
  · have hvalues : (p.args.map Term.text).map b.substituteText = b.substitute p := by
      rw [List.map_map]
      refine List.map_congr_left fun a ha => substituteText_text (hargs a ha) ?_
      rintro c rfl
      exact hconst c ha
    rw [substituteText_defaultCall, substituteText_of_unbound hname, hvalues]
  · intro x hx
    rw [identifiers_defaultCall, List.flatMap_map]
    refine List.mem_append_right _ (List.mem_flatMap.mpr ⟨.var x, hx, ?_⟩)
    rw [Term.text, identifiers_of_isIdentifier (hargs _ hx).isIdentifier]
    exact List.mem_singleton_self x

/-- Neither the `X1` of the constant nor the `X` of the value is replaced. -/
theorem substituteText_display_quoted :
    let p : Predicate := ⟨"move", [.var "X", .const "at(x, \"y, X1\")", .var "X", .var "Y"]⟩
    let b : Bindings := Dict.ofList [("X", "X, Y")]
    Predicate.parse "move(X, at(x, \"y, X1\"), X, Y)" = .ok p ∧
      b.substituteText p.display = "move(X, Y, at(x, \"y, X1\"), X, Y, Y)" ∧
      b.substituteText p.display = defaultCall p.name (b.substitute p) ∧ "Y" ∈ identifiers p.display := by
  intro p b
  have hp : Predicate.parse "move(X, at(x, \"y, X1\"), X, Y)" = .ok p := rfl
  have hname : ∀ w ∈ identifiers p.name, b.get? w = none := by decide +kernel
  have hconst : ∀ c, .const c ∈ p.args → ∀ w ∈ identifiers c, b.get? w = none := by
    intro c hc
    obtain rfl : c = "at(x, \"y, X1\")" := by simpa [p] using hc
    decide +kernel
  obtain ⟨hcall, hvariables⟩ := substituteText_display b hp (by decide) hname hconst
  exact ⟨hp, by decide +kernel, hcall, hvariables "Y" (by simp [p])⟩

end Bindings

end TestScribe

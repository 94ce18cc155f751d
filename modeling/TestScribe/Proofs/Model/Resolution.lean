import TestScribe.Proofs.First
import TestScribe.Proofs.Model.Declared
import TestScribe.Proofs.Predicate.Unification
import TestScribe.Proofs.Text.Rewriting

/-!
# The tiers of a look-up

`Resolves` says what code a name and a tuple have, from the mappings declared for the name in the order
of their declarations and from the object table. `Model.resolve` is the function of the relation, and
`Resolves` reads the mappings without variables and those with variables apart, so how the two are
interleaved does not matter (`resolve_ofDeclarations`).
-/

namespace TestScribe

theorem Predicate.hasVariables_iff {p : Predicate} : p.hasVariables = true ↔ ∃ x, .var x ∈ p.args := by
  rw [hasVariables, List.any_eq_true]
  constructor
  · rintro ⟨a, ha, hv⟩
    cases a with
    | var x => exact ⟨x, ha⟩
    | const c => cases hv
  · rintro ⟨x, hx⟩
    exact ⟨.var x, hx, rfl⟩

namespace Mapping

/-- The arguments of the mapping's pattern are the tuple itself. -/
def Names (t : Tuple) (e : Mapping) : Prop :=
  e.pattern.args = t.map .const

/-- The mapping has variables and unifies with the tuple. -/
def Fits (t : Tuple) (e : Mapping) : Prop :=
  e.isParametric = true ∧ ∃ σ, e.pattern.Unifies t σ

theorem isParametric_eq_true_iff {e : Mapping} :
    e.isParametric = true ↔ ∃ x, .var x ∈ e.pattern.args :=
  Predicate.hasVariables_iff

theorem Names.isParametric_eq_false {t : Tuple} {e : Mapping} (h : e.Names t) :
    e.isParametric = false := by
  rw [Bool.eq_false_iff]
  intro hp
  obtain ⟨x, hx⟩ := isParametric_eq_true_iff.mp hp
  rw [h] at hx
  simp at hx

/-- A pattern with variables does not become the empty tuple. -/
theorem Fits.ne_nil {t : Tuple} {e : Mapping} (h : e.Fits t) : t ≠ [] := by
  rintro rfl
  obtain ⟨hp, σ, hσ⟩ := h
  obtain ⟨x, hx⟩ := isParametric_eq_true_iff.mp hp
  rw [Predicate.Unifies, List.map_eq_nil_iff] at hσ
  rw [hσ] at hx
  cases hx

end Mapping

theorem Predicate.matchesExactly_iff {p : Predicate} {t : Tuple} :
    p.matchesExactly t = true ↔ p.args = t.map .const := by
  rw [matchesExactly, Bool.and_eq_true, beq_iff_eq, arity]
  generalize p.args = terms
  induction terms generalizing t with
  | nil => cases t <;> simp
  | cons a terms ih =>
    cases t with
    | nil => simp
    | cons v t =>
      rw [List.map_cons, List.cons.injEq, ← ih]
      simp only [List.length_cons, List.zip_cons_cons, List.all_cons, Bool.and_eq_true, beq_iff_eq,
        Nat.add_right_cancel_iff]
      constructor
      · rintro ⟨hlen, ha, hall⟩
        exact ⟨ha, hlen, hall⟩
      · rintro ⟨ha, hlen, hall⟩
        exact ⟨hlen, ha, hall⟩

/-- What a value is written as: by its object name in accessors and mutators, as it is in actions. -/
def writtenValue (kind : MappingKind) (object? : String → Option String) (value : String) : String :=
  match kind with
  | .action => value
  | .accessor | .mutator => (object? value).getD value

/-- The values that a mapping's variables are replaced by. -/
def Mapping.written (e : Mapping) (kind : MappingKind) (object? : String → Option String)
    (σ : String → String) (x : String) : Option String :=
  if .var x ∈ e.pattern.args then some (writtenValue kind object? (σ x)) else none

/-- The values do not depend on which assignment unifies. -/
theorem Mapping.written_congr {e : Mapping} {t : Tuple} (kind : MappingKind)
    (object? : String → Option String) {σ τ : String → String} (hσ : e.pattern.Unifies t σ)
    (hτ : e.pattern.Unifies t τ) : e.written kind object? σ = e.written kind object? τ := by
  funext x
  rw [written, written]
  split
  · next hx => rw [hσ.eq_on hτ hx]
  · rfl

/-- The code of a name and a tuple, from the mappings `L` of the name in order and from the objects. -/
inductive Resolves (L : List Mapping) (object? : String → Option String) (kind : MappingKind)
    (name : String) (t : Tuple) : Resolution → Prop
  /-- The operator of the first mapping whose arguments are the tuple, as it stands. -/
  | exact {e : Mapping} (he : IsFirst (Mapping.Names t) L e) :
      Resolves L object? kind name t ⟨e.operator, .exact⟩
  /-- Else the operator of the first mapping with variables that unifies, with the values in it. -/
  | parametric {e : Mapping} {σ : String → String} {code : String}
      (hexact : ∀ e ∈ L, ¬ e.Names t) (he : IsFirst (Mapping.Fits t) L e)
      (hσ : e.pattern.Unifies t σ)
      (hcode : Substituted (e.written kind object? σ) e.operator code) :
      Resolves L object? kind name t ⟨code, .parametric⟩
  /-- Else a call of the name with the tuple. -/
  | synthesized (hexact : ∀ e ∈ L, ¬ e.Names t) (hparametric : ∀ e ∈ L, ¬ e.Fits t) :
      Resolves L object? kind name t ⟨name ++ "(" ++ ", ".intercalate t ++ ")", .synthesized⟩

namespace Resolves

variable {L L' : List Mapping} {object? object?' : String → Option String} {kind : MappingKind}
  {name : String} {t : Tuple} {r r' : Resolution}

theorem unique (h : Resolves L object? kind name t r) (h' : Resolves L object? kind name t r') :
    r = r' := by
  cases h with
  | exact he =>
    cases h' with
    | exact he' => rw [he.unique he']
    | parametric hexact' => exact absurd he.holds (hexact' _ he.mem)
    | synthesized hexact' => exact absurd he.holds (hexact' _ he.mem)
  | parametric hexact he hσ hcode =>
    cases h' with
    | exact he' => exact absurd he'.holds (hexact _ he'.mem)
    | parametric _ he' hσ' hcode' =>
      obtain rfl := he.unique he'
      rw [Mapping.written_congr kind object? hσ hσ'] at hcode
      rw [hcode.unique hcode']
    | synthesized _ hparametric' => exact absurd he.holds (hparametric' _ he.mem)
  | synthesized hexact hparametric =>
    cases h' with
    | exact he' => exact absurd he'.holds (hexact _ he'.mem)
    | parametric _ he' => exact absurd he'.holds (hparametric _ he'.mem)
    | synthesized => rfl

/-- Only the order among the mappings without variables and the order among those with variables
count. -/
theorem congr (hobject : ∀ v, object? v = object?' v)
    (hground : L.filter (fun e => !e.isParametric) = L'.filter fun e => !e.isParametric)
    (hparametric : L.filter Mapping.isParametric = L'.filter Mapping.isParametric)
    (h : Resolves L object? kind name t r) : Resolves L' object?' kind name t r := by
  obtain rfl : object? = object?' := funext hobject
  have hnames (e : Mapping) (he : e.Names t) : (!e.isParametric) = true := by
    rw [he.isParametric_eq_false]; rfl
  have hfits (e : Mapping) (he : e.Fits t) : e.isParametric = true := he.1
  cases h with
  | exact he => exact .exact (he.of_filter_eq hnames hground)
  | parametric hexact he hσ hcode =>
    exact .parametric (IsFirst.forall_not_of_filter_eq hnames hground hexact)
      (he.of_filter_eq hfits hparametric) hσ hcode
  | synthesized hexact hnone =>
    exact .synthesized (IsFirst.forall_not_of_filter_eq hnames hground hexact)
      (IsFirst.forall_not_of_filter_eq hfits hparametric hnone)

end Resolves

namespace Model

variable {m : Model} {kind : MappingKind} {name : String} {t : Tuple}

theorem get?_rendered (b : Bindings) (x : String) :
    (m.rendered kind b).get? x = (b.get? x).map (writtenValue kind m.object?) := by
  cases kind with
  | action => exact Option.map_id_fun' ▸ rfl
  | accessor => exact Dict.get?_mapValues (fun v => (m.object? v).getD v) b x
  | mutator => exact Dict.get?_mapValues (fun v => (m.object? v).getD v) b x

theorem isFirst_of_exactMapping {e : Mapping} (h : m.exactMapping kind name t = some e) :
    IsFirst (Mapping.Names t) (m.mappingsOf kind name) e := by
  refine IsFirst.of_find? (fun x => ?_) h
  rw [Bool.and_eq_true, Predicate.matchesExactly_iff]
  refine ⟨fun hx => hx.2, fun hx => ⟨?_, hx⟩⟩
  rw [Mapping.Names.isParametric_eq_false hx]; rfl

theorem not_names_of_exactMapping (h : m.exactMapping kind name t = none) :
    ∀ e ∈ m.mappingsOf kind name, ¬ e.Names t := by
  intro e he hn
  have hx := List.find?_eq_none.mp h e he
  rw [hn.isParametric_eq_false, Predicate.matchesExactly_iff.mpr hn] at hx
  exact hx rfl

theorem isFirst_of_unifiedCode {code : String} (h : m.unifiedCode kind name t = some code) :
    ∃ e b, IsFirst (Mapping.Fits t) (m.mappingsOf kind name) e ∧ e.pattern.unify t = .ok b ∧
      code = (m.rendered kind b).substituteText e.operator := by
  refine Exists.imp (fun e hfirst => ?_)
    (IsFirst.of_findSome? (P := fun e => ∃ σ, e.pattern.Unifies t σ) (fun e => ?_) h)
  · obtain ⟨he, hcode⟩ := hfirst
    split at hcode
    · next b hb =>
      cases hcode
      exact ⟨b, he.of_filter, hb, rfl⟩
    · cases hcode
  · rw [← Predicate.unify_ok_iff]
    split
    · next b hb => simp [hb]
    · next err herr => simp [herr]

theorem not_fits_of_unifiedCode (h : m.unifiedCode kind name t = none) :
    ∀ e ∈ m.mappingsOf kind name, ¬ e.Fits t := by
  intro e he hf
  obtain ⟨b, hb⟩ := Predicate.unify_ok_iff.mpr hf.2
  have hx := List.findSome?_eq_none_iff.mp h e (List.mem_filter.mpr ⟨he, hf.1⟩)
  rw [hb] at hx
  cases hx

theorem resolves_resolve (m : Model) (kind : MappingKind) (name : String) (t : Tuple) :
    Resolves (m.mappingsOf kind name) m.object? kind name t (m.resolve kind name t) := by
  rw [resolve]
  split
  · next e he => exact .exact (isFirst_of_exactMapping he)
  next hexact =>
  have hnames := not_names_of_exactMapping hexact
  split
  · next code hcode =>
    split at hcode
    · cases hcode
    obtain ⟨e, b, he, hb, rfl⟩ := isFirst_of_unifiedCode hcode
    obtain ⟨σ, hσ⟩ := he.holds.2
    refine .parametric hnames he hσ ?_
    have hvalues : e.written kind m.object? σ = (m.rendered kind b).get? := by
      funext x
      rw [get?_rendered, Predicate.get?_of_unify hb hσ, Mapping.written]
      split <;> rfl
    rw [hvalues]
    exact substituted_iff.mpr rfl
  · next hnone =>
    refine .synthesized hnames fun e he hf => ?_
    have hne : t.isEmpty = false := List.isEmpty_eq_false_iff.mpr hf.ne_nil
    rw [hne] at hnone
    exact not_fits_of_unifiedCode hnone e he hf

/-- A look-up in a model that is built gives the code of its tier. Declarations with the same objects and
the same order among the mappings of a name without variables, and among those with, give models that
resolve the name alike. -/
theorem resolve_ofDeclarations {system : String} {ds : List Declaration} {m : Model}
    (h : ofDeclarations system ds = .ok m) (kind : MappingKind) (name : String) (t : Tuple) :
    (∀ r, m.resolve kind name t = r ↔
      Resolves (declaredMappings ds kind name) (declaredObject? ds) kind name t r) ∧
    ∀ {system' : String} {ds' : List Declaration} {m' : Model},
      ofDeclarations system' ds' = .ok m' →
      (∀ v, declaredObject? ds v = declaredObject? ds' v) →
      ((declaredMappings ds kind name).filter (fun e => !e.isParametric) =
        (declaredMappings ds' kind name).filter fun e => !e.isParametric) →
      ((declaredMappings ds kind name).filter Mapping.isParametric =
        (declaredMappings ds' kind name).filter Mapping.isParametric) →
      m.resolve kind name t = m'.resolve kind name t := by
  have resolves {system : String} {ds : List Declaration} {m : Model}
      (h : ofDeclarations system ds = .ok m) :
      Resolves (declaredMappings ds kind name) (declaredObject? ds) kind name t
        (m.resolve kind name t) := by
    rw [← mappingsOf_ofDeclarations h, ← funext (object?_ofDeclarations h)]
    exact resolves_resolve m kind name t
  refine ⟨fun r => ⟨fun hr => hr ▸ resolves h, fun hr => (resolves h).unique hr⟩, ?_⟩
  intro system' ds' m' h' hobject hground hparametric
  exact ((resolves h).congr hobject hground hparametric).unique (resolves h')

theorem resolve_interleaved_accessors :
    ∃ m m' : Model,
      ofDeclarations "Bank" [.mapping .accessor "b(X)" "get(X)", .object "a" "o",
        .mapping .accessor "b(k)" "is(k)"] = .ok m ∧
      ofDeclarations "Shop" [.mapping .accessor "b(k)" "is(k)", .mapping .action "b(X)" "go(X)",
        .mapping .accessor "b(X)" "get(X)", .object "a" "o"] = .ok m' ∧
      m.resolve .accessor "b" ["a"] = ⟨"get(o)", .parametric⟩ ∧
      m.resolve .accessor "b" ["a"] = m'.resolve .accessor "b" ["a"] := by
  have h : ofDeclarations "Bank" [.mapping .accessor "b(X)" "get(X)", .object "a" "o",
    .mapping .accessor "b(k)" "is(k)"] = .ok _ := rfl
  have h' : ofDeclarations "Shop" [.mapping .accessor "b(k)" "is(k)", .mapping .action "b(X)" "go(X)",
    .mapping .accessor "b(X)" "get(X)", .object "a" "o"] = .ok _ := rfl
  obtain ⟨tiers, interleaved⟩ := resolve_ofDeclarations h .accessor "b" ["a"]
  refine ⟨_, _, h, h', (tiers _).mpr ?_, interleaved h' (fun v => rfl) rfl rfl⟩
  show Resolves [⟨.accessor, ⟨"b", [.var "X"]⟩, "get(X)"⟩, ⟨.accessor, ⟨"b", [.const "k"]⟩, "is(k)"⟩]
    (declaredObject? _) .accessor "b" ["a"] ⟨"get(o)", .parametric⟩
  have unifies : Predicate.Unifies ⟨"b", [.var "X"]⟩ ["a"] fun _ => "a" := rfl
  refine .parametric ?_ (.here ⟨rfl, _, unifies⟩) unifies (Text.rewritten_iff.mpr (by decide +kernel))
  intro e he hn
  have hargs : e.pattern.args = [.var "X"] ∨ e.pattern.args = [.const "k"] := by
    simp only [List.mem_cons, List.not_mem_nil, or_false] at he
    rcases he with rfl | rfl <;> simp
  rw [hn] at hargs
  simp at hargs

end Model

end TestScribe

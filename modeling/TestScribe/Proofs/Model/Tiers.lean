import TestScribe.Proofs.Model.Resolution

/-!
# The tiers of a look-up are apart

A pattern names exactly a tuple when it has no variables and unifies with the tuple without binding any
(`Predicate.matchesExactly_iff_unify`). So the mappings that the first tier of a look-up takes are not those that the
second one takes, and as no pattern with variables unifies with the empty tuple, the second tier need not be kept from
it (`resolve_tiers`).
-/

namespace TestScribe

namespace Predicate

variable {p : Predicate} {t : Tuple}

theorem unify_of_matchesExactly (h : p.matchesExactly t = true) : p.unify t = .ok ∅ := by
  have hargs := matchesExactly_iff.mp h
  have hunifies : p.Unifies t id := by
    rw [Unifies, hargs, List.map_map]
    exact List.map_id t
  obtain ⟨b, hb⟩ := unify_ok_iff.mpr ⟨id, hunifies⟩
  have hempty : b = ∅ := by
    refine Dict.ext fun x => ?_
    rw [get?_of_unify hb hunifies, hargs, if_neg (by simp)]
    rfl
  rw [hb, hempty]

theorem hasVariables_of_matchesExactly (h : p.matchesExactly t = true) : p.hasVariables = false := by
  rw [Bool.eq_false_iff]
  intro hvariables
  obtain ⟨x, hx⟩ := hasVariables_iff.mp hvariables
  rw [matchesExactly_iff.mp h] at hx
  simp at hx

theorem matchesExactly_iff_unify : p.matchesExactly t = true ↔ p.hasVariables = false ∧ p.unify t = .ok ∅ := by
  refine ⟨fun h => ⟨hasVariables_of_matchesExactly h, unify_of_matchesExactly h⟩, fun ⟨hground, hunify⟩ => ?_⟩
  have hvalues : Bindings.substitute ∅ p = t := (unifyWith_sound hunify).2.2
  rw [matchesExactly_iff, ← hvalues, Bindings.substitute, List.map_map]
  -- Each argument is a constant, and so stands for its value.
  refine ((List.map_congr_left fun a ha => ?_).trans (List.map_id _)).symm
  cases a with
  | const c => rfl
  | var x =>
    have hvariables : p.hasVariables = true := hasVariables_iff.mpr ⟨x, ha⟩
    rw [hground] at hvariables
    cases hvariables

theorem unify_nil (h : p.hasVariables = true) : p.unify [] = .error (.arityMismatch p.arity 0) := by
  obtain ⟨x, hx⟩ := hasVariables_iff.mp h
  exact if_neg fun hlength => List.ne_nil_of_mem hx (List.length_eq_zero_iff.mp hlength)

end Predicate

namespace Model

variable {m : Model} {kind : MappingKind} {name : String} {t t' : Tuple} {e e' : Mapping}

/-- The mapping that the second tier takes: the first one with variables that unifies with the tuple. -/
def unifyingMapping (m : Model) (kind : MappingKind) (name : String) (t : Tuple) : Option Mapping :=
  (m.mappingsOf kind name).find? fun e => e.isParametric && (e.pattern.unify t).isOk

/-- A look-up that tries the second tier for the empty tuple as well. -/
def resolveUnguarded (m : Model) (kind : MappingKind) (name : String) (t : Tuple) : Resolution :=
  match m.exactMapping kind name t with
  | some e => ⟨e.operator, .exact⟩
  | none =>
    match m.unifiedCode kind name t with
    | some code => ⟨code, .parametric⟩
    | none => ⟨defaultCall name t, .synthesized⟩

theorem unifyingMapping_eq_some_iff :
    m.unifyingMapping kind name t = some e ↔ IsFirst (Mapping.Fits t) (m.mappingsOf kind name) e := by
  refine IsFirst.find?_eq_some_iff fun x => ?_
  rw [Bool.and_eq_true, Mapping.Fits, ← Predicate.unify_ok_iff]
  cases x.pattern.unify t <;> simp [Except.isOk, Except.toBool]

theorem unifiedCode_eq_some_iff {code : String} : m.unifiedCode kind name t = some code ↔
    ∃ e b, m.unifyingMapping kind name t = some e ∧ e.pattern.unify t = .ok b ∧
      code = (m.rendered kind b).substituteText e.operator := by
  constructor
  · intro h
    obtain ⟨e, b, he, hb, hcode⟩ := isFirst_of_unifiedCode h
    exact ⟨e, b, unifyingMapping_eq_some_iff.mpr he, hb, hcode⟩
  · rintro ⟨e, b, he, hb, rfl⟩
    rw [unifyingMapping_eq_some_iff] at he
    cases h : m.unifiedCode kind name t with
    | none => exact absurd he.holds (not_fits_of_unifiedCode h e he.mem)
    | some code =>
      obtain ⟨e', b', he', hb', rfl⟩ := isFirst_of_unifiedCode h
      obtain rfl := he.unique he'
      rw [Except.ok.inj (hb.symm.trans hb')]

theorem ne_of_exactMapping_of_unifyingMapping (h : m.exactMapping kind name t = some e)
    (h' : m.unifyingMapping kind name t' = some e') : e ≠ e' := by
  rintro rfl
  have hground := (isFirst_of_exactMapping h).holds.isParametric_eq_false
  rw [(unifyingMapping_eq_some_iff.mp h').holds.1] at hground
  cases hground

theorem unifiedCode_nil (m : Model) (kind : MappingKind) (name : String) : m.unifiedCode kind name [] = none := by
  cases h : m.unifiedCode kind name [] with
  | none => rfl
  | some code =>
    obtain ⟨e, b, he, -⟩ := isFirst_of_unifiedCode h
    exact absurd rfl he.holds.ne_nil

theorem resolve_eq_resolveUnguarded (m : Model) (kind : MappingKind) (name : String) (t : Tuple) :
    m.resolve kind name t = m.resolveUnguarded kind name t := by
  rw [resolve, resolveUnguarded]
  cases t with
  | nil => rw [unifiedCode_nil]; rfl
  | cons v t => rfl

/-- A pattern matches a tuple exactly when it has no variables and unifies with it without bindings, and one with
variables never unifies with a tuple that is empty. So no mapping is taken by the first tier of a look-up for one
tuple and by the second for this or another one, and whether the second tier is left out for the empty tuple does not
count. -/
theorem resolve_tiers :
    (∀ (p : Predicate) (t : Tuple), p.matchesExactly t = true ↔ p.hasVariables = false ∧ p.unify t = .ok ∅) ∧
      (∀ (p : Predicate) (t : Tuple), p.hasVariables = true → t.length = 0 →
        p.unify t = .error (.arityMismatch p.arity 0)) ∧
      ∀ (m : Model) (kind : MappingKind) (name : String),
        (∀ t t' e e', m.exactMapping kind name t = some e → m.unifyingMapping kind name t' = some e' → e ≠ e') ∧
        (∀ t code, m.unifiedCode kind name t = some code ↔
          ∃ e b, m.unifyingMapping kind name t = some e ∧ e.pattern.unify t = .ok b ∧
            code = (m.rendered kind b).substituteText e.operator) ∧
        ∀ t, m.resolve kind name t = m.resolveUnguarded kind name t := by
  refine ⟨fun p t => Predicate.matchesExactly_iff_unify, fun p t hvariables hlength => ?_, fun m kind name => ?_⟩
  · obtain rfl := List.length_eq_zero_iff.mp hlength
    exact Predicate.unify_nil hvariables
  · exact ⟨fun t t' e e' h h' => ne_of_exactMapping_of_unifyingMapping h h', fun t code => unifiedCode_eq_some_iff,
      resolve_eq_resolveUnguarded m kind name⟩

/-- Both mappings unify with the tuple, the second one without bindings; neither unifies with the empty tuple. -/
theorem resolve_tiers_shop :
    let parametric : Mapping := ⟨.accessor, ⟨"open", [.var "X"]⟩, "isOpen(X)"⟩
    let ground : Mapping := ⟨.accessor, ⟨"open", [.const "shop"]⟩, "shopOpen()"⟩
    ∃ m : Model,
      Model.ofDeclarations "Shop" [.mapping .accessor "open(X)" "isOpen(X)",
        .mapping .accessor "open(shop)" "shopOpen()"] = .ok m ∧
      (ground.pattern.hasVariables = false ∧ ground.pattern.unify ["shop"] = .ok ∅) ∧
      (parametric.pattern.hasVariables = true ∧ parametric.pattern.unify [] = .error (.arityMismatch 1 0)) ∧
      (m.exactMapping .accessor "open" ["shop"] = some ground ∧
        m.unifyingMapping .accessor "open" ["shop"] = some parametric ∧ ground ≠ parametric) ∧
      m.unifiedCode .accessor "open" ["shop"] = some "isOpen(shop)" ∧
      m.resolveUnguarded .accessor "open" [] = ⟨"open()", .synthesized⟩ := by
  intro parametric ground
  obtain ⟨hmatches, hempty, htiers⟩ := resolve_tiers
  obtain ⟨m, hm, hexact, hunifying, hcode, hresolve⟩ : ∃ m : Model,
      Model.ofDeclarations "Shop" [.mapping .accessor "open(X)" "isOpen(X)",
        .mapping .accessor "open(shop)" "shopOpen()"] = .ok m ∧
      m.exactMapping .accessor "open" ["shop"] = some ground ∧
      m.unifyingMapping .accessor "open" ["shop"] = some parametric ∧
      (m.rendered .accessor (Dict.ofList [("X", "shop")])).substituteText "isOpen(X)" = "isOpen(shop)" ∧
      m.resolve .accessor "open" [] = ⟨"open()", .synthesized⟩ :=
    ⟨_, rfl, by decide +kernel, by decide +kernel, by decide +kernel, by decide +kernel⟩
  obtain ⟨hapart, hunified, hguard⟩ := htiers m .accessor "open"
  refine ⟨m, hm, (hmatches ground.pattern ["shop"]).mp (by decide +kernel), ⟨rfl, hempty parametric.pattern [] rfl rfl⟩,
    ⟨hexact, hunifying, hapart _ _ _ _ hexact hunifying⟩, ?_, ?_⟩
  · exact (hunified _ _).mpr ⟨parametric, _, hunifying, rfl, hcode.symm⟩
  · rw [← hguard, hresolve]

end Model

end TestScribe

import TestScribe.Proofs.Model.Resolution

/-!
# Code that shows

A text is `Visible` if it has a character that is not blank. An operator is visible, and it stays so when its variables
are replaced by visible values, even if nothing else stands in it (`Substituted.visible`), so the code of a look-up is
visible (`resolve_visible`).
-/

namespace TestScribe

/-- The text has a character that is not blank. -/
def Visible (s : String) : Prop :=
  ∃ c ∈ s.toList, isBlank c = false

theorem visible_iff {s : String} : Visible s ↔ isBlankText s = false := by
  rw [isBlankText, Text.blank, List.all_eq_false, Visible]
  simp only [Bool.not_eq_true]

/-! ### Rewriting -/

namespace Text

theorem not_isBlank_of_isTokenHead {c : Char} (h : isTokenHead c = true) : isBlank c = false := by
  have hrange : 65 ≤ c.toNat ∧ c.toNat ≤ 90 ∨ 97 ≤ c.toNat ∧ c.toNat ≤ 122 ∨ c.toNat = 95 := by
    change (c.isUpper || c.isLower || c == '_') = true at h
    rw [Bool.or_eq_true, Bool.or_eq_true] at h
    rcases h with (hupper | hlower) | hline
    · exact .inl (of_decide_eq_true hupper)
    · obtain ⟨hfrom, hto⟩ := Bool.and_eq_true_iff.mp hlower
      exact .inr (.inl ⟨of_decide_eq_true hfrom, of_decide_eq_true hto⟩)
    · exact .inr (.inr (congrArg Char.toNat (eq_of_beq hline)))
  rw [Bool.eq_false_iff]
  intro hblank
  simp only [isBlank, Bool.or_eq_true, Bool.and_eq_true, decide_eq_true_eq, beq_iff_eq] at hblank
  omega

/-- An identifier shows wherever it stands, so what replaces it has to show; other characters are kept. -/
theorem Rewritten.exists_not_isBlank {f : List Char → List Char} {cs ds : List Char} (h : Rewritten f cs ds)
    (hf : ∀ c w, isTokenHead c = true → ∃ x ∈ f (c :: w), isBlank x = false)
    (hcs : ∃ x ∈ cs, isBlank x = false) : ∃ x ∈ ds, isBlank x = false := by
  induction h with
  | done => exact hcs
  | keep hc h ih =>
    obtain ⟨x, hx, hblank⟩ := hcs
    rcases List.mem_cons.mp hx with rfl | hx
    · exact ⟨x, List.mem_cons_self, hblank⟩
    · obtain ⟨y, hy, hblank⟩ := ih ⟨x, hx, hblank⟩
      exact ⟨y, List.mem_cons_of_mem _ hy, hblank⟩
  | token hc hw hend h ih =>
    obtain ⟨x, hx, hblank⟩ := hf _ _ hc
    exact ⟨x, List.mem_append_left _ hx, hblank⟩

end Text

theorem Substituted.visible {value? : String → Option String} {template code : String}
    (h : Substituted value? template code) (hvalues : ∀ x v, value? x = some v → Visible v)
    (htemplate : Visible template) : Visible code := by
  refine Text.Rewritten.exists_not_isBlank h (fun c w hc => ?_) htemplate
  rw [identifierText]
  split
  · next v hv => exact hvalues _ v hv
  · exact ⟨c, List.mem_cons_self, Text.not_isBlank_of_isTokenHead hc⟩

/-! ### The tiers -/

theorem visible_defaultCall (name : String) (t : Tuple) :
    Visible (name ++ "(" ++ ", ".intercalate t ++ ")") := by
  refine ⟨'(', ?_, by decide⟩
  simp

/-- A variable stands for an element of the tuple. -/
theorem Predicate.Unifies.mem {p : Predicate} {t : Tuple} {σ : String → String} (h : p.Unifies t σ) {x : String}
    (hx : .var x ∈ p.args) : σ x ∈ t := by
  rw [← h]
  exact List.mem_map_of_mem hx

theorem visible_writtenValue {object? : String → Option String} {value : String} (kind : MappingKind)
    (hobjects : ∀ v o, object? v = some o → Visible o) (hvalue : Visible value) :
    Visible (writtenValue kind object? value) := by
  have hnamed : Visible ((object? value).getD value) := by
    cases hobject : object? value with
    | none => exact hvalue
    | some o => exact hobjects value o hobject
  cases kind with
  | action => exact hvalue
  | accessor => exact hnamed
  | mutator => exact hnamed

theorem Mapping.visible_written {e : Mapping} {t : Tuple} {σ : String → String} (hσ : e.pattern.Unifies t σ)
    (kind : MappingKind) {object? : String → Option String} (ht : ∀ v ∈ t, Visible v)
    (hobjects : ∀ v o, object? v = some o → Visible o) {x v : String}
    (hx : e.written kind object? σ x = some v) : Visible v := by
  rw [written] at hx
  split at hx
  · next hmem =>
    obtain rfl := Option.some.inj hx
    exact visible_writtenValue kind hobjects (ht _ (hσ.mem hmem))
  · cases hx

/-- Only where values are put in does the code depend on what they are. -/
theorem Resolves.visible {L : List Mapping} {object? : String → Option String} {kind : MappingKind} {name : String}
    {t : Tuple} {r : Resolution} (hL : ∀ e ∈ L, Visible e.operator) (h : Resolves L object? kind name t r) :
    (r.tier ≠ .parametric → Visible r.code) ∧
      ((∀ v ∈ t, Visible v) → (∀ v o, object? v = some o → Visible o) → Visible r.code) := by
  cases h with
  | exact he => exact ⟨fun _ => hL _ he.mem, fun _ _ => hL _ he.mem⟩
  | parametric _ he hσ hcode =>
    refine ⟨fun htier => absurd rfl htier, fun ht hobjects => ?_⟩
    exact hcode.visible (fun x v hx => Mapping.visible_written hσ kind ht hobjects hx) (hL _ he.mem)
  | synthesized => exact ⟨fun _ => visible_defaultCall name t, fun _ _ => visible_defaultCall name t⟩

namespace Model

variable {system : String} {ds : List Declaration} {m : Model}

/-- A model that is built has no mapping with a blank operator. -/
theorem visible_operator (h : ofDeclarations system ds = .ok m) {kind : MappingKind} {name : String} {e : Mapping}
    (he : e ∈ m.mappingsOf kind name) : Visible e.operator := by
  rw [mappingsOf_ofDeclarations h, declaredMappings, List.mem_filter] at he
  obtain ⟨a, -, ha⟩ := List.mem_filterMap.mp he.1
  obtain ⟨pattern, -, -, hblank⟩ := Declaration.mapping?_eq_some_iff.mp ha
  exact visible_iff.mpr hblank

/-- The code of a look-up shows if all values do that could be put into it: the elements of the tuple and the names
of the objects. Where none are put in, it shows whatever they are. -/
theorem resolve_visible (h : ofDeclarations system ds = .ok m) (kind : MappingKind) (name : String) (t : Tuple) :
    ((m.resolve kind name t).tier ≠ .parametric → Visible (m.resolve kind name t).code) ∧
      ((∀ v ∈ t, Visible v) → (∀ v o, m.object? v = some o → Visible o) →
        Visible (m.resolve kind name t).code) :=
  (resolves_resolve m kind name t).visible fun _ he => visible_operator h he

/-- The whole operator is a variable, so the code is what its value is written as: it shows when the value does. -/
theorem resolve_visible_variable :
    let ds : List Declaration := [.mapping .accessor "open(X)" " X", .object "d1" "door"]
    ∃ m, ofDeclarations "Shop" ds = .ok m ∧
      m.resolve .accessor "open" ["d1"] = ⟨" door", .parametric⟩ ∧
      ((∀ v ∈ ["d1"], Visible v) ∧ (∀ v o, m.object? v = some o → Visible o) ∧
        Visible (m.resolve .accessor "open" ["d1"]).code) ∧
      ((m.resolve .action "open" ["\t"]).tier ≠ .parametric ∧ Visible (m.resolve .action "open" ["\t"]).code) ∧
      ¬ Visible (m.resolve .accessor "open" ["\t"]).code := by
  intro ds
  let m := ((Draft.empty "Shop").declare ds).toModel
  have h : ofDeclarations "Shop" ds = .ok m := rfl
  have hvalue : ∀ v ∈ ["d1"], Visible v := List.forall_mem_singleton.mpr ⟨'d', by decide, by decide⟩
  have hobjects : ∀ v o, m.object? v = some o → Visible o := by
    intro v o hobject
    have hv : (if "d1" = v then some "door" else none) = some o := by
      rw [← hobject, object?_ofDeclarations h]
      by_cases hd : "d1" = v <;> simp [ds, declaredObject?, Declaration.object?, hd]
    obtain ⟨-, ho⟩ := Option.ite_none_right_eq_some.mp hv
    obtain rfl := Option.some.inj ho
    exact ⟨'d', by decide, by decide⟩
  have hsynthesized : (m.resolve .action "open" ["\t"]).tier ≠ .parametric := by decide +kernel
  have hblank : (m.resolve .accessor "open" ["\t"]).code = " \t" := by decide +kernel
  refine ⟨m, h, by decide +kernel, ⟨hvalue, hobjects, (resolve_visible h .accessor "open" ["d1"]).2 hvalue hobjects⟩,
    ⟨hsynthesized, (resolve_visible h .action "open" ["\t"]).1 hsynthesized⟩, ?_⟩
  rw [hblank, visible_iff]
  decide

end Model

end TestScribe

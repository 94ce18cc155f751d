import TestScribe.Bindings

/-!
# Unification with a tuple

`Predicate.Unifies p t σ`: the assignment `σ` of values to variables turns the pattern `p` into the
tuple `t`. `unifyWith_sound` and `unifyWith_complete` say that `Predicate.unifyWith` finds the bindings
common to all such assignments (`agrees_iff_of_unifyWith`), and `get?_of_unify` gives them variable by
variable.
-/

namespace TestScribe

/-- The text of a term under an assignment of values to the variables. -/
def Term.under (σ : String → String) : Term → String
  | .var x => σ x
  | .const c => c

/-- Under the assignment, the arguments of the pattern are the tuple, position by position. -/
def Predicate.Unifies (p : Predicate) (t : Tuple) (σ : String → String) : Prop :=
  p.args.map (Term.under σ) = t

namespace Bindings

variable {b b' b'' : Bindings} {σ : String → String} {x v : String}

/-- The assignment gives every bound variable its value. -/
def Agrees (b : Bindings) (σ : String → String) : Prop :=
  ∀ x v, b.get? x = some v → σ x = v

/-- The assignment that bindings make: an unbound variable stands for its own name. -/
def assign (b : Bindings) (x : String) : String :=
  (b.get? x).getD x

theorem under_assign (b : Bindings) : Term.under b.assign = b.value := by
  funext a
  cases a <;> rfl

theorem agrees_assign (b : Bindings) : b.Agrees b.assign := fun x v h => by
  rw [assign, h, Option.getD_some]

/-- `b'` binds what `b` binds, to the same values. -/
def Extends (b' b : Bindings) : Prop :=
  ∀ x v, b.get? x = some v → b'.get? x = some v

theorem Extends.refl : b.Extends b := fun _ _ h => h

theorem Extends.trans (h₁ : b'.Extends b) (h₂ : b''.Extends b') : b''.Extends b :=
  fun x v h => h₂ x v (h₁ x v h)

theorem Extends.antisymm (h : b'.Extends b) (h' : b.Extends b') : b = b' :=
  Dict.ext fun x => Option.ext fun v => ⟨h x v, h' x v⟩

theorem extends_insert (hx : b.get? x = none) : Extends (b.insert x v) b := by
  intro y w hy
  rw [Dict.get?_insert]
  split
  · next he => rw [← he, hx] at hy; cases hy
  · exact hy

theorem Agrees.insert (h : b.Agrees σ) (hx : σ x = v) : Agrees (b.insert x v) σ := by
  intro y w hy
  rw [Dict.get?_insert] at hy
  split at hy
  · next he => cases hy; rw [← he, hx]
  · exact h y w hy

theorem Agrees.of_extends (h : b'.Agrees σ) (hext : b'.Extends b) : b.Agrees σ :=
  fun x v hx => h x v (hext x v hx)

theorem agrees_empty : Agrees ∅ σ := fun x v h => by
  rw [show (∅ : Bindings) = Dict.empty from rfl, Dict.get?_empty] at h; cases h

end Bindings

namespace Predicate

variable {b b' : Bindings} {σ : String → String} {p : Predicate} {t : Tuple}

theorem unifyArgs_sound {terms : List Term} {values : List String} {position : Nat}
    (hlen : terms.length = values.length) (h : unifyArgs position b terms values = .ok b') :
    b'.Extends b ∧ (∀ x, (b'.get? x).isSome ↔ (b.get? x).isSome ∨ .var x ∈ terms) ∧
      terms.map b'.value = values := by
  induction terms generalizing values position b with
  | nil =>
    cases values with
    | cons v values => simp at hlen
    | nil =>
      obtain rfl : b = b' := by simpa [unifyArgs] using h
      exact ⟨.refl, by simp, rfl⟩
  | cons a terms ih =>
    cases values with
    | nil => simp at hlen
    | cons v values =>
      have hlen' : terms.length = values.length := by simpa using hlen
      cases a with
      | const c =>
        rw [unifyArgs] at h
        split at h
        · next hc =>
          obtain ⟨hext, hdom, hval⟩ := ih hlen' h
          exact ⟨hext, by simp [hdom], by rw [List.map_cons, hval, Bindings.value, hc]⟩
        · cases h
      | var x =>
        rw [unifyArgs] at h
        split at h
        · next bound hbound =>
          split at h
          · next he =>
            subst he
            obtain ⟨hext, hdom, hval⟩ := ih hlen' h
            refine ⟨hext, fun y => ?_, ?_⟩
            · rw [hdom y, List.mem_cons, Term.var.injEq]
              constructor
              · exact fun hy => hy.imp id .inr
              · rintro (hy | rfl | hy)
                · exact .inl hy
                · exact .inl (by simp [hbound])
                · exact .inr hy
            · rw [List.map_cons, hval, Bindings.value, hext x bound hbound, Option.getD_some]
          · cases h
        · next hnone =>
          obtain ⟨hext, hdom, hval⟩ := ih hlen' h
          refine ⟨(Bindings.extends_insert hnone).trans hext, fun y => ?_, ?_⟩
          · rw [hdom y, Dict.get?_insert, List.mem_cons, Term.var.injEq]
            by_cases he : x = y
            · simp [he]
            · simp [he, Ne.symm he]
          · rw [List.map_cons, hval, Bindings.value, hext x v (by simp), Option.getD_some]

theorem unifyArgs_complete (terms : List Term) (position : Nat) (hσ : b.Agrees σ) :
    ∃ b', unifyArgs position b terms (terms.map (Term.under σ)) = .ok b' ∧ b'.Agrees σ := by
  induction terms generalizing position b with
  | nil => exact ⟨b, by simp [unifyArgs], hσ⟩
  | cons a terms ih =>
    cases a with
    | const c =>
      obtain ⟨b', hb', hσ'⟩ := ih (position + 1) hσ
      exact ⟨b', by simpa [unifyArgs, Term.under] using hb', hσ'⟩
    | var x =>
      cases hx : b.get? x with
      | some bound =>
        obtain ⟨b', hb', hσ'⟩ := ih (position + 1) hσ
        exact ⟨b', by simpa [unifyArgs, Term.under, hx, (hσ x bound hx).symm] using hb', hσ'⟩
      | none =>
        obtain ⟨b', hb', hσ'⟩ := ih (position + 1) (hσ.insert (x := x) rfl)
        exact ⟨b', by simpa [unifyArgs, Term.under, hx] using hb', hσ'⟩

/-- Success extends the bindings to the pattern's variables, and turns it into the tuple. -/
theorem unifyWith_sound (h : p.unifyWith t b = .ok b') :
    b'.Extends b ∧ (∀ x, (b'.get? x).isSome ↔ (b.get? x).isSome ∨ .var x ∈ p.args) ∧
      b'.substitute p = t := by
  rw [unifyWith] at h
  split at h
  · next hlen => exact unifyArgs_sound hlen h
  · cases h

theorem Unifies.arity_eq (h : p.Unifies t σ) : p.arity = t.length := by
  rw [← h, List.length_map, arity]

/-- An assignment that turns the pattern into the tuple makes unification succeed, and agrees with
what it finds. -/
theorem unifyWith_complete (hσ : b.Agrees σ) (h : p.Unifies t σ) :
    ∃ b', p.unifyWith t b = .ok b' ∧ b'.Agrees σ := by
  obtain ⟨b', hb', hσ'⟩ := unifyArgs_complete p.args 0 hσ
  exact ⟨b', by rw [unifyWith, if_pos h.arity_eq, ← h, hb'], hσ'⟩

theorem Unifies.eq_on {τ : String → String} (hσ : p.Unifies t σ) (hτ : p.Unifies t τ) {x : String}
    (hx : .var x ∈ p.args) : σ x = τ x := by
  rw [Unifies, ← hτ] at hσ
  exact List.map_inj_left.mp hσ _ hx

/-- An assignment that gives the variables of the pattern the values they are bound to. -/
theorem unifies_substitute (hσ : b.Agrees σ) (hbound : ∀ x, .var x ∈ p.args → (b.get? x).isSome) :
    p.Unifies (b.substitute p) σ := by
  refine List.map_congr_left fun a ha => ?_
  cases a with
  | const c => rfl
  | var x =>
    obtain ⟨v, hv⟩ := Option.isSome_iff_exists.mp (hbound x ha)
    rw [Term.under, hσ x v hv, Bindings.value, hv, Option.getD_some]

/-- The assignments that agree with what unification finds are those that unify. -/
theorem agrees_iff_of_unifyWith (h : p.unifyWith t b = .ok b') : b'.Agrees σ ↔ b.Agrees σ ∧ p.Unifies t σ := by
  obtain ⟨hext, hdom, hsub⟩ := unifyWith_sound h
  constructor
  · exact fun hσ => ⟨hσ.of_extends hext, hsub ▸ unifies_substitute hσ fun x hx => (hdom x).mpr (.inr hx)⟩
  · rintro ⟨hσ, hunifies⟩
    obtain ⟨b'', hb'', hagrees⟩ := unifyWith_complete hσ hunifies
    rwa [Except.ok.inj (h.symm.trans hb'')]

/-- Unification fails exactly when no assignment fits. -/
theorem exists_unifyWith_iff : (∃ b', p.unifyWith t b = .ok b') ↔ ∃ σ, b.Agrees σ ∧ p.Unifies t σ := by
  constructor
  · rintro ⟨b', h⟩
    exact ⟨b'.assign, (agrees_iff_of_unifyWith h).mp b'.agrees_assign⟩
  · rintro ⟨σ, hσ, hunifies⟩
    obtain ⟨b', hb', -⟩ := unifyWith_complete hσ hunifies
    exact ⟨b', hb'⟩

theorem unify_ok_iff : (∃ b, p.unify t = .ok b) ↔ ∃ σ, p.Unifies t σ :=
  exists_unifyWith_iff.trans (exists_congr fun _ => and_iff_right Bindings.agrees_empty)

/-- The bindings found are those of any assignment that fits, on the variables of the pattern. -/
theorem get?_of_unify (h : p.unify t = .ok b) (hσ : p.Unifies t σ) (x : String) :
    b.get? x = if .var x ∈ p.args then some (σ x) else none := by
  obtain ⟨-, hdom, -⟩ := unifyWith_sound h
  have hempty : (∅ : Bindings).get? x = none := Dict.get?_empty x
  have hagree : b.Agrees σ := (agrees_iff_of_unifyWith h).mpr ⟨Bindings.agrees_empty, hσ⟩
  cases hx : b.get? x with
  | none =>
    have hmem : .var x ∉ p.args := fun hmem => by simpa [hx] using (hdom x).mpr (.inr hmem)
    rw [if_neg hmem]
  | some v =>
    have hmem : .var x ∈ p.args := by simpa [hempty] using (hdom x).mp (by simp [hx])
    rw [if_pos hmem, hagree x v hx]

end Predicate

end TestScribe

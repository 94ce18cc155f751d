import TestScribe.Proofs.Predicate.Unification

/-!
# What unification finds, and why it fails

`Bindings.Admits`: some assignment that keeps the bindings turns the terms into the values. Unification takes
terms and values from left to right, and one lemma for each kind of term says what admitting the first one comes
to (`admits_const_iff`, `admits_bound_iff`, `admits_free_iff`). By these, unification succeeds when the pattern is
admitted, with the least bindings that unify it, and otherwise tells the first position at which it is not
(`unifyWith_outcome`).
-/

namespace TestScribe

namespace Bindings

variable {b b' : Bindings} {σ : String → String} {terms : List Term} {values : List String} {a a' : Term}
  {c v v' x y bound : String} {i i' position : Nat} {e e' : UnifyError}

theorem agrees_insert_iff (hx : b.get? x = none) : Agrees (b.insert x v) σ ↔ b.Agrees σ ∧ σ x = v :=
  ⟨fun h => ⟨h.of_extends (extends_insert hx), h x v (by simp)⟩, fun h => h.1.insert h.2⟩

/-! ### Terms that can be matched -/

/-- An assignment that keeps the bindings turns the terms into the values, position by position. -/
def Admits (b : Bindings) (terms : List Term) (values : List String) : Prop :=
  ∃ σ, b.Agrees σ ∧ terms.map (Term.under σ) = values

theorem admits_nil (b : Bindings) : b.Admits [] [] :=
  ⟨b.assign, b.agrees_assign, rfl⟩

theorem Admits.take (h : b.Admits terms values) (n : Nat) : b.Admits (terms.take n) (values.take n) := by
  obtain ⟨σ, hσ, rfl⟩ := h
  exact ⟨σ, hσ, List.map_take⟩

theorem admits_const_iff : b.Admits (.const c :: terms) (v :: values) ↔ c = v ∧ b.Admits terms values := by
  constructor
  · rintro ⟨σ, hσ, h⟩
    obtain ⟨hc, hrest⟩ := List.cons.inj h
    exact ⟨hc, σ, hσ, hrest⟩
  · rintro ⟨rfl, σ, hσ, rfl⟩
    exact ⟨σ, hσ, rfl⟩

theorem admits_bound_iff (hx : b.get? x = some bound) :
    b.Admits (.var x :: terms) (v :: values) ↔ bound = v ∧ b.Admits terms values := by
  constructor
  · rintro ⟨σ, hσ, h⟩
    obtain ⟨hv, hrest⟩ := List.cons.inj h
    exact ⟨(hσ x bound hx).symm.trans hv, σ, hσ, hrest⟩
  · rintro ⟨rfl, σ, hσ, rfl⟩
    exact ⟨σ, hσ, by rw [List.map_cons, Term.under, hσ x bound hx]⟩

theorem admits_free_iff (hx : b.get? x = none) :
    b.Admits (.var x :: terms) (v :: values) ↔ Admits (b.insert x v) terms values := by
  constructor
  · rintro ⟨σ, hσ, h⟩
    obtain ⟨hv, hrest⟩ := List.cons.inj h
    exact ⟨σ, (agrees_insert_iff hx).mpr ⟨hσ, hv⟩, hrest⟩
  · rintro ⟨σ, hσ, rfl⟩
    obtain ⟨hb, rfl⟩ := (agrees_insert_iff hx).mp hσ
    exact ⟨σ, hb, rfl⟩

/-! ### The first position that cannot be matched -/

/-- The terms before position `i` can be matched with their values, but not together with the term there. -/
structure StuckAt (b : Bindings) (terms : List Term) (values : List String) (i : Nat) (a : Term) (v : String) :
    Prop where
  term : terms[i]? = some a
  value : values[i]? = some v
  before : b.Admits (terms.take i) (values.take i)
  stuck : ¬ b.Admits (terms.take (i + 1)) (values.take (i + 1))

namespace StuckAt

theorem here (h : ¬ b.Admits [a] [v]) : b.StuckAt (a :: terms) (v :: values) 0 a v :=
  ⟨rfl, rfl, b.admits_nil, h⟩

/-- If the first term and value do to the bindings what `b'` has more, the position moves on by one. -/
theorem cons (hstep : ∀ terms values, b.Admits (a :: terms) (v :: values) ↔ b'.Admits terms values)
    (h : b'.StuckAt terms values i a' v') : b.StuckAt (a :: terms) (v :: values) (i + 1) a' v' :=
  ⟨h.term, h.value, (hstep _ _).mpr h.before, fun hall => h.stuck ((hstep _ _).mp hall)⟩

theorem not_admits (h : b.StuckAt terms values i a v) : ¬ b.Admits terms values :=
  fun hall => h.stuck (hall.take (i + 1))

theorem le (h : b.StuckAt terms values i a v) (h' : b.StuckAt terms values i' a' v') : i' ≤ i := by
  refine Nat.le_of_not_lt fun hlt => h.stuck ?_
  have hbefore := h'.before.take (i + 1)
  rwa [List.take_take, List.take_take, Nat.min_eq_left hlt] at hbefore

theorem unique (h : b.StuckAt terms values i a v) (h' : b.StuckAt terms values i' a' v') :
    i = i' ∧ a = a' ∧ v = v' := by
  obtain rfl := Nat.le_antisymm (h'.le h) (h.le h')
  exact ⟨rfl, Option.some.inj (h.term.symm.trans h'.term), Option.some.inj (h.value.symm.trans h'.value)⟩

end StuckAt

/-- The value of a variable in the bindings, or else the one at its first occurrence among the terms. -/
def given (b : Bindings) (terms : List Term) (values : List String) (x : String) : Option String :=
  (b.get? x).or ((terms.zip values).lookup (.var x))

theorem given_const : b.given (.const c :: terms) (v :: values) x = b.given terms values x := by
  rw [given, List.zip_cons_cons, List.lookup_cons, beq_eq_false_iff_ne.mpr (by simp)]
  rfl

theorem given_bound (hy : b.get? y = some bound) :
    b.given (.var y :: terms) (v :: values) x = b.given terms values x := by
  by_cases h : x = y
  · subst h
    simp [given, hy]
  · rw [given, List.zip_cons_cons, List.lookup_cons, beq_eq_false_iff_ne.mpr (by simpa using h)]
    rfl

theorem given_free (hy : b.get? y = none) :
    b.given (.var y :: terms) (v :: values) x = given (b.insert y v) terms values x := by
  by_cases h : x = y
  · subst h
    simp [given, hy]
  · rw [given, List.zip_cons_cons, List.lookup_cons, beq_eq_false_iff_ne.mpr (by simpa using h), given,
      Dict.get?_insert, if_neg (Ne.symm h)]

/-- The error that describes the first position that cannot be matched; positions count from `position`. -/
inductive Clash (b : Bindings) (position : Nat) (terms : List Term) (values : List String) : UnifyError → Prop
  | constant {i : Nat} {c v : String} (h : b.StuckAt terms values i (.const c) v) :
      Clash b position terms values (.constantMismatch (position + i) c v)
  | binding {i : Nat} {x first v : String} (h : b.StuckAt terms values i (.var x) v)
      (hfirst : b.given terms values x = some first) :
      Clash b position terms values (.inconsistentBinding x first v)

namespace Clash

theorem not_admits (h : b.Clash position terms values e) : ¬ b.Admits terms values := by
  cases h with
  | constant h => exact h.not_admits
  | binding h => exact h.not_admits

theorem unique (h : b.Clash position terms values e) (h' : b.Clash position terms values e') : e = e' := by
  cases h with
  | constant h =>
    cases h' with
    | constant h' =>
      obtain ⟨rfl, ha, rfl⟩ := h.unique h'
      cases ha
      rfl
    | binding h' => cases (h.unique h').2.1
  | binding h hfirst =>
    cases h' with
    | constant h' => cases (h.unique h').2.1
    | binding h' hfirst' =>
      obtain ⟨-, ha, rfl⟩ := h.unique h'
      cases ha
      rw [Option.some.inj (hfirst.symm.trans hfirst')]

theorem cons (hstep : ∀ terms values, b.Admits (a :: terms) (v :: values) ↔ b'.Admits terms values)
    (hgiven : ∀ x, b.given (a :: terms) (v :: values) x = b'.given terms values x)
    (h : b'.Clash (position + 1) terms values e) : b.Clash position (a :: terms) (v :: values) e := by
  cases h with
  | constant h =>
    rw [Nat.add_assoc, Nat.add_comm 1]
    exact .constant (h.cons hstep)
  | binding h hfirst => exact .binding (h.cons hstep) (by rw [hgiven, hfirst])

end Clash

end Bindings

open Bindings

namespace Predicate

variable {b b' c : Bindings} {p : Predicate} {t : Tuple} {e : UnifyError}

/-- The error of a failed unification describes the first position that cannot be matched. -/
theorem clash_of_unifyArgs {terms : List Term} {values : List String} {position : Nat}
    (hlen : terms.length = values.length) (h : unifyArgs position b terms values = .error e) :
    b.Clash position terms values e := by
  induction terms generalizing values position b with
  | nil => simp [unifyArgs] at h
  | cons a terms ih =>
    cases values with
    | nil => simp at hlen
    | cons v values =>
      have hlen' : terms.length = values.length := by simpa using hlen
      cases a with
      | const c =>
        rw [unifyArgs] at h
        split at h
        · next hc =>
          exact (ih hlen' h).cons (fun _ _ => admits_const_iff.trans (and_iff_right hc)) fun _ => given_const
        · next hc =>
          cases h
          exact .constant (.here fun hone => hc (admits_const_iff.mp hone).1)
      | var x =>
        rw [unifyArgs] at h
        split at h
        · next bound hbound =>
          split at h
          · next hv =>
            exact (ih hlen' h).cons (fun _ _ => (admits_bound_iff hbound).trans (and_iff_right hv))
              fun _ => given_bound hbound
          · next hv =>
            cases h
            exact .binding (.here fun hone => hv ((admits_bound_iff hbound).mp hone).1) (by simp [given, hbound])
        · next hnone =>
          exact (ih hlen' h).cons (fun _ _ => admits_free_iff hnone) fun _ => given_free hnone

/-- The bindings keep those of `b`, bind the variables of the pattern and turn it into the tuple. -/
structure Solves (p : Predicate) (t : Tuple) (b c : Bindings) : Prop where
  keeps : c.Extends b
  binds : ∀ x, .var x ∈ p.args → (c.get? x).isSome
  substitute : c.substitute p = t

theorem solves_of_unifyWith (h : p.unifyWith t b = .ok b') : p.Solves t b b' := by
  obtain ⟨hext, hdom, hsub⟩ := unifyWith_sound h
  exact ⟨hext, fun x hx => (hdom x).mpr (.inr hx), hsub⟩

theorem Solves.agrees (h : p.Solves t b c) : b.Agrees c.assign :=
  c.agrees_assign.of_extends h.keeps

theorem Solves.unifies (h : p.Solves t b c) : p.Unifies t c.assign :=
  h.substitute ▸ unifies_substitute c.agrees_assign h.binds

/-- Other bindings that unify the pattern bind at least what unification finds. -/
theorem Solves.extends_of_unifyWith (h : p.Solves t b c) (hb' : p.unifyWith t b = .ok b') : c.Extends b' := by
  intro x v hx
  have hv : c.assign x = v := (agrees_iff_of_unifyWith hb').mpr ⟨h.agrees, h.unifies⟩ x v hx
  have hbound : (c.get? x).isSome := by
    rcases ((unifyWith_sound hb').2.1 x).mp (by rw [hx]; rfl) with hb | hp
    · obtain ⟨w, hw⟩ := Option.isSome_iff_exists.mp hb
      rw [h.keeps x w hw]; rfl
    · exact h.binds x hp
  obtain ⟨w, hw⟩ := Option.isSome_iff_exists.mp hbound
  rw [assign, hw, Option.getD_some] at hv
  rw [hw, hv]

theorem unifyWith_eq_ok_iff :
    p.unifyWith t b = .ok b' ↔ p.Solves t b b' ∧ ∀ c, p.Solves t b c → c.Extends b' := by
  constructor
  · exact fun h => ⟨solves_of_unifyWith h, fun c hc => hc.extends_of_unifyWith h⟩
  · rintro ⟨hsolves, hleast⟩
    obtain ⟨b'', hb'', -⟩ := unifyWith_complete hsolves.agrees hsolves.unifies
    rw [hb'', Extends.antisymm (hsolves.extends_of_unifyWith hb'') (hleast b'' (solves_of_unifyWith hb''))]

theorem unifyWith_eq_error_iff :
    p.unifyWith t b = .error e ↔ p.arity ≠ t.length ∧ e = .arityMismatch p.arity t.length ∨
      p.arity = t.length ∧ b.Clash 0 p.args t e := by
  by_cases hlen : p.arity = t.length
  · have hargs : p.unifyWith t b = unifyArgs 0 b p.args t := if_pos hlen
    constructor
    · exact fun h => .inr ⟨hlen, clash_of_unifyArgs hlen (hargs.symm.trans h)⟩
    · rintro (⟨hne, -⟩ | ⟨-, hclash⟩)
      · exact absurd hlen hne
      · cases h : p.unifyWith t b with
        | ok b' => exact absurd (exists_unifyWith_iff.mp ⟨b', h⟩) hclash.not_admits
        | error e' => rw [hclash.unique (clash_of_unifyArgs hlen (hargs.symm.trans h))]
  · rw [unifyWith, if_neg hlen, Except.error.injEq]
    constructor
    · exact fun h => .inl ⟨hlen, h.symm⟩
    · rintro (⟨-, he⟩ | ⟨heq, -⟩)
      · exact he.symm
      · exact absurd heq hlen

/-- Unification succeeds exactly when some assignment that keeps the given bindings turns the pattern into the
tuple, and then finds the least bindings that do: every variable that was bound or is in the pattern is bound, and
no other, and whatever else unifies agrees with it. Otherwise the lengths differ, or the error describes the first
position that cannot be matched with those before it. -/
theorem unifyWith_outcome (p : Predicate) (t : Tuple) (b : Bindings) :
    ((∃ b', p.unifyWith t b = .ok b') ↔ p.arity = t.length ∧ ∃ σ, b.Agrees σ ∧ p.Unifies t σ) ∧
      (∀ b', p.unifyWith t b = .ok b' ↔ p.Solves t b b' ∧ ∀ c, p.Solves t b c → c.Extends b') ∧
      (∀ b', p.unifyWith t b = .ok b' →
        (∀ x, (b'.get? x).isSome ↔ (b.get? x).isSome ∨ .var x ∈ p.args) ∧
          ∀ σ, b'.Agrees σ ↔ b.Agrees σ ∧ p.Unifies t σ) ∧
      ∀ e, p.unifyWith t b = .error e ↔ p.arity ≠ t.length ∧ e = .arityMismatch p.arity t.length ∨
        p.arity = t.length ∧ b.Clash 0 p.args t e := by
  refine ⟨?_, fun b' => unifyWith_eq_ok_iff, fun b' h => ⟨?_, fun σ => ?_⟩, fun e => unifyWith_eq_error_iff⟩
  · rw [exists_unifyWith_iff]
    exact (and_iff_right_of_imp fun ⟨_, _, hunifies⟩ => hunifies.arity_eq).symm
  · exact (unifyWith_sound h).2.1
  · exact agrees_iff_of_unifyWith h

/-- The last position of the second tuple cannot be matched either, but the third comes first. -/
theorem unifyWith_outcome_transfer :
    let p : Predicate := ⟨"transfer", [.var "A", .var "B", .var "A", .const "5"]⟩
    let b : Bindings := Dict.ofList [("B", "b1")]
    let found : Bindings := Dict.ofList [("A", "a1"), ("B", "b1")]
    p.unifyWith ["a1", "b1", "a1", "5"] b = .ok found ∧
      p.Solves ["a1", "b1", "a1", "5"] b found ∧
      ((found.get? "C").isSome ↔ (b.get? "C").isSome ∨ .var "C" ∈ p.args) ∧
      p.unifyWith ["a1", "b1", "a2", "6"] b = .error (.inconsistentBinding "A" "a1" "a2") ∧
      b.Clash 0 p.args ["a1", "b1", "a2", "6"] (.inconsistentBinding "A" "a1" "a2") := by
  intro p b found
  have hfound : p.unifyWith ["a1", "b1", "a1", "5"] b = .ok found := rfl
  have hclash : p.unifyWith ["a1", "b1", "a2", "6"] b = .error (.inconsistentBinding "A" "a1" "a2") := rfl
  obtain ⟨-, hok, hbound, -⟩ := unifyWith_outcome p ["a1", "b1", "a1", "5"] b
  obtain ⟨-, -, -, herror⟩ := unifyWith_outcome p ["a1", "b1", "a2", "6"] b
  refine ⟨hfound, ((hok found).mp hfound).1, (hbound found hfound).1 "C", hclash, ?_⟩
  rcases (herror _).mp hclash with ⟨hlen, -⟩ | ⟨-, h⟩
  · exact absurd rfl hlen
  · exact h

end Predicate

end TestScribe

import Mathlib.Data.List.Forall2
import TestScribe.Marking
import TestScribe.Proofs.Predicate.Unification

/-!
# The search for bindings

`Fulfils` says when an assignment of values to variables fulfils conditions and negated predicates, without any
search. The search finds such an assignment whenever there is one, and of all of them the one that comes first by
the positions of its tuples (`findBinding_first`). What carries the induction is `Completes`, the same for what
is left of the conditions once some variables are bound.
-/

namespace TestScribe

namespace Marking

variable {m m' : Marking} {condition negated rest : List Predicate} {p : Predicate} {t : Tuple}
  {b b' : Bindings} {σ : String → String}

/-- Under the assignment every condition is a tuple of its place and no negated predicate is one. Only the
variables of the conditions are given a value. -/
structure Fulfils (m : Marking) (condition negated : List Predicate) (σ : String → String) : Prop where
  own : ∀ x, (∀ p ∈ condition, .var x ∉ p.args) → σ x = x
  held : ∀ p ∈ condition, p.args.map (Term.under σ) ∈ m.tuples p.name
  free : ∀ p ∈ negated, p.args.map (Term.under σ) ∉ m.tuples p.name

/-- The conditions are, under the assignment, the tuples at these positions in their places. -/
def Chosen (m : Marking) (condition : List Predicate) (σ : String → String) (positions : List Nat) : Prop :=
  List.Forall₂ (fun p i => (m.tuples p.name)[i]? = some (p.args.map (Term.under σ))) condition positions

/-- The assignment fulfils what is left of the conditions and gives the bound variables their values. -/
structure Completes (m : Marking) (negated rest : List Predicate) (b : Bindings) (σ : String → String) :
    Prop where
  agrees : b.Agrees σ
  own : ∀ x, b.get? x = none → (∀ p ∈ rest, .var x ∉ p.args) → σ x = x
  held : ∀ p ∈ rest, p.args.map (Term.under σ) ∈ m.tuples p.name
  free : ∀ p ∈ negated, p.args.map (Term.under σ) ∉ m.tuples p.name

theorem completes_empty_iff : m.Completes negated condition ∅ σ ↔ m.Fulfils condition negated σ :=
  ⟨fun h => ⟨fun x => h.own x (Dict.get?_empty x), h.held, h.free⟩,
    fun h => ⟨Bindings.agrees_empty, fun x _ => h.own x, h.held, h.free⟩⟩

theorem blocked_eq_false_iff :
    m.blocked negated b = false ↔ ∀ p ∈ negated, p.args.map (Term.under b.assign) ∉ m.tuples p.name := by
  simp [blocked, holds, Bindings.substitute, Bindings.under_assign]

/-- With no condition left, the bindings themselves are the only assignment. -/
theorem completes_nil_iff : m.Completes negated [] b σ ↔ σ = b.assign ∧ m.blocked negated b = false := by
  rw [blocked_eq_false_iff]
  constructor
  · intro h
    have hσ : σ = b.assign := funext fun x => by
      cases hx : b.get? x with
      | none => rw [h.own x hx (by simp), Bindings.assign, hx, Option.getD_none]
      | some v => rw [h.agrees x v hx, Bindings.assign, hx, Option.getD_some]
    exact ⟨hσ, hσ ▸ h.free⟩
  · rintro ⟨rfl, hfree⟩
    exact ⟨b.agrees_assign, fun x hx _ => by rw [Bindings.assign, hx, Option.getD_none], by simp, hfree⟩

/-- Assignments that turn a condition into a tuple are those that complete the bindings of that choice. -/
theorem completes_cons_iff (h : p.unifyWith t b = .ok b') (ht : t ∈ m.tuples p.name) :
    m.Completes negated (p :: rest) b σ ∧ p.Unifies t σ ↔ m.Completes negated rest b' σ := by
  obtain ⟨-, hdom, -⟩ := Predicate.unifyWith_sound h
  have hagrees : b'.Agrees σ ↔ b.Agrees σ ∧ p.Unifies t σ := Predicate.agrees_iff_of_unifyWith h
  constructor
  · rintro ⟨hσ, hunifies⟩
    refine ⟨hagrees.mpr ⟨hσ.agrees, hunifies⟩, fun x hx hrest => ?_, fun q hq => hσ.held q (List.mem_cons_of_mem _ hq), hσ.free⟩
    have hnot : ¬ ((b.get? x).isSome ∨ .var x ∈ p.args) := fun hbound => by
      simpa [hx] using (hdom x).mpr hbound
    rw [not_or] at hnot
    exact hσ.own x (by simpa using hnot.1) (List.forall_mem_cons.mpr ⟨hnot.2, hrest⟩)
  · intro hσ
    obtain ⟨hb, hunifies⟩ := hagrees.mp hσ.agrees
    refine ⟨⟨hb, fun x hx hnot => ?_, ?_, hσ.free⟩, hunifies⟩
    · obtain ⟨hp, hrest⟩ := List.forall_mem_cons.mp hnot
      refine hσ.own x (Option.not_isSome_iff_eq_none.mp fun hbound => ?_) hrest
      rcases (hdom x).mp hbound with hbound | hmem
      · simp [hx] at hbound
      · exact hp hmem
    · exact List.forall_mem_cons.mpr ⟨hunifies ▸ ht, hσ.held⟩

theorem not_completes_of_search (h : m.search negated condition b = none) :
    ¬ m.Completes negated condition b σ := by
  induction condition generalizing b with
  | nil =>
    intro hσ
    rw [search, (completes_nil_iff.mp hσ).2] at h
    cases h
  | cons p rest ih =>
    intro hσ
    have ht := hσ.held p List.mem_cons_self
    obtain ⟨b', hb', -⟩ := Predicate.unifyWith_complete hσ.agrees (rfl : p.Unifies _ σ)
    have hnone := List.findSome?_eq_none_iff.mp h _ ht
    rw [hb'] at hnone
    exact ih hnone ((completes_cons_iff hb' ht).mp ⟨hσ, rfl⟩)

/-- The search gives the completion with the first positions: a choice that comes before it was tried before it. -/
theorem search_first (h : m.search negated condition b = some b') :
    m.Completes negated condition b b'.assign ∧
      (∀ x, (b'.get? x).isSome ↔ (b.get? x).isSome ∨ ∃ p ∈ condition, .var x ∈ p.args) ∧
      ∃ positions, m.Chosen condition b'.assign positions ∧
        ∀ σ others, m.Completes negated condition b σ → m.Chosen condition σ others →
          ¬ List.Lex (· < ·) others positions := by
  induction condition generalizing b with
  | nil =>
    rw [search] at h
    split at h
    · cases h
    · next hblocked =>
      obtain rfl := Option.some.inj h
      refine ⟨completes_nil_iff.mpr ⟨rfl, Bool.eq_false_iff.mpr hblocked⟩, by simp, [], .nil, ?_⟩
      intro σ others _ _ hlex
      cases hlex
  | cons p rest ih =>
    obtain ⟨before, t, after, htuples, ht, hbefore⟩ := List.findSome?_eq_some_iff.mp h
    cases hunify : p.unifyWith t b with
    | error e =>
      rw [hunify] at ht
      cases ht
    | ok b₁ =>
      rw [hunify] at ht
      obtain ⟨hσ', hdom, positions, hchosen, hfirst⟩ := ih ht
      have hmem : t ∈ m.tuples p.name := by simp [htuples]
      have hposition : (m.tuples p.name)[before.length]? = some t := by simp [htuples]
      obtain ⟨hcompletes, hunifies⟩ := (completes_cons_iff hunify hmem).mpr hσ'
      refine ⟨hcompletes, fun x => ?_, before.length :: positions, .cons (hposition.trans ?_) hchosen, ?_⟩
      · rw [hdom x, (Predicate.unifyWith_sound hunify).2.1 x]
        simp [or_assoc]
      · rw [hunifies]
      · intro σ others hσ hothers hlex
        cases hothers with
        | cons hi hrest =>
          cases hlex with
          | rel hlt =>
            -- the tuple of an earlier position was tried, and nothing completed it
            rw [htuples, List.getElem?_append_left hlt] at hi
            obtain ⟨b₂, hb₂, -⟩ := Predicate.unifyWith_complete hσ.agrees (rfl : p.Unifies _ σ)
            have hnone := hbefore _ (List.mem_of_getElem? hi)
            rw [hb₂] at hnone
            exact not_completes_of_search hnone
              ((completes_cons_iff hb₂ (hσ.held p List.mem_cons_self)).mp ⟨hσ, rfl⟩)
          | cons hlex =>
            have hunifies : p.Unifies t σ := Option.some.inj (hi.symm.trans hposition)
            exact hfirst σ _ ((completes_cons_iff hunify hmem).mp ⟨hσ, hunifies⟩) hrest hlex

theorem exists_findBinding_iff :
    (m.findBinding condition negated).isSome ↔ ∃ σ, m.Fulfils condition negated σ := by
  rw [findBinding]
  cases h : m.search negated condition ∅ with
  | none =>
    constructor
    · intro h
      cases h
    · rintro ⟨σ, hσ⟩
      exact absurd (completes_empty_iff.mpr hσ) (not_completes_of_search h)
  | some b => exact ⟨fun _ => ⟨b.assign, completes_empty_iff.mp (search_first h).1⟩, fun _ => rfl⟩

theorem Chosen.eq_on {τ : String → String} {positions : List Nat} {x : String}
    (hσ : m.Chosen condition σ positions) (hτ : m.Chosen condition τ positions) (hp : p ∈ condition)
    (hx : .var x ∈ p.args) : σ x = τ x := by
  induction hσ with
  | nil => cases hp
  | cons hi _ ih =>
    cases hτ with
    | cons hi' hrest =>
      rcases List.mem_cons.mp hp with rfl | hp
      · exact Predicate.Unifies.eq_on rfl (Option.some.inj (hi'.symm.trans hi)) hx
      · exact ih hrest hp

/-- The positions of the tuples fix the assignment. -/
theorem Fulfils.unique {τ : String → String} {positions : List Nat} (hσ : m.Fulfils condition negated σ)
    (hτ : m.Fulfils condition negated τ) (hpositions : m.Chosen condition σ positions)
    (hpositions' : m.Chosen condition τ positions) : σ = τ := by
  funext x
  by_cases hx : ∃ p ∈ condition, .var x ∈ p.args
  · obtain ⟨p, hp, hx⟩ := hx
    exact hpositions.eq_on hpositions' hp hx
  · have hx : ∀ p ∈ condition, .var x ∉ p.args := fun p hp hmem => hx ⟨p, hp, hmem⟩
    rw [hσ.own x hx, hτ.own x hx]

theorem Fulfils.congr {condition' negated' : List Predicate} (h : m.Fulfils condition negated σ)
    (hcondition : ∀ p, p ∈ condition' ↔ p ∈ condition) (hnegated : ∀ p, p ∈ negated' ↔ p ∈ negated)
    (htuples : ∀ place t, t ∈ m'.tuples place ↔ t ∈ m.tuples place) : m'.Fulfils condition' negated' σ where
  own x hx := h.own x fun p hp => hx p ((hcondition p).mpr hp)
  held p hp := (htuples _ _).mpr (h.held p ((hcondition p).mp hp))
  free p hp hmem := h.free p ((hnegated p).mp hp) ((htuples _ _).mp hmem)

theorem isSome_findBinding_congr {condition' negated' : List Predicate}
    (hcondition : ∀ p, p ∈ condition' ↔ p ∈ condition) (hnegated : ∀ p, p ∈ negated' ↔ p ∈ negated)
    (htuples : ∀ place t, t ∈ m'.tuples place ↔ t ∈ m.tuples place) :
    (m'.findBinding condition' negated').isSome = (m.findBinding condition negated).isSome := by
  rw [Bool.eq_iff_iff, exists_findBinding_iff, exists_findBinding_iff]
  constructor
  · rintro ⟨σ, hσ⟩
    exact ⟨σ, hσ.congr (fun p => (hcondition p).symm) (fun p => (hnegated p).symm)
      fun place t => (htuples place t).symm⟩
  · rintro ⟨σ, hσ⟩
    exact ⟨σ, hσ.congr hcondition hnegated htuples⟩

/-- The search finds bindings exactly when some assignment fulfils the conditions. They bind the variables of the
conditions and no others, and make the assignment that fulfils them with the lexicographically first choice of
positions. So whether a goal is satisfied does not depend on the order or on repetitions in its conditions, in
its negated predicates or in the places. -/
theorem findBinding_first (m : Marking) (condition negated : List Predicate) :
    ((m.findBinding condition negated).isSome ↔ ∃ σ, m.Fulfils condition negated σ) ∧
      (∀ b, m.findBinding condition negated = some b →
        (∀ x, (b.get? x).isSome ↔ ∃ p ∈ condition, .var x ∈ p.args) ∧
        m.Fulfils condition negated b.assign ∧
        ∃ positions, m.Chosen condition b.assign positions ∧
          ∀ σ others, m.Fulfils condition negated σ → m.Chosen condition σ others →
            ¬ List.Lex (· < ·) others positions ∧ (others = positions → σ = b.assign)) ∧
      ∀ (m' : Marking) (condition' negated' : List Predicate) (name name' : String),
        (∀ p, p ∈ condition' ↔ p ∈ condition) → (∀ p, p ∈ negated' ↔ p ∈ negated) →
        (∀ place t, t ∈ m'.tuples place ↔ t ∈ m.tuples place) →
          m'.satisfies ⟨name', condition', negated'⟩ = m.satisfies ⟨name, condition, negated⟩ := by
  refine ⟨exists_findBinding_iff, fun b hb => ?_, fun m' condition' negated' name name' => ?_⟩
  · obtain ⟨hcompletes, hdom, positions, hchosen, hfirst⟩ := search_first hb
    have hfulfils := completes_empty_iff.mp hcompletes
    have hempty (x : String) : ¬ ((∅ : Bindings).get? x).isSome := by
      rw [show (∅ : Bindings).get? x = none from Dict.get?_empty x]
      exact Bool.false_ne_true
    refine ⟨fun x => (hdom x).trans (or_iff_right (hempty x)), hfulfils, positions, hchosen, ?_⟩
    intro σ others hσ hothers
    refine ⟨hfirst σ others (completes_empty_iff.mpr hσ) hothers, ?_⟩
    rintro rfl
    exact hσ.unique hfulfils hothers hchosen
  · exact isSome_findBinding_congr

/-- Ann is the first owner of an account with a balance, but hers is empty. -/
theorem findBinding_first_join :
    let m : Marking := ((((∅ : Marking).add "owner" ["ann", "a1"]).add "owner" ["bob", "a2"]).add
      "balance" ["a1", "0"]).add "balance" ["a2", "5"]
    let condition : List Predicate :=
      [⟨"owner", [.var "P", .var "A"]⟩, ⟨"balance", [.var "A", .var "B"]⟩]
    let negated : List Predicate := [⟨"balance", [.var "A", .const "0"]⟩]
    let b : Bindings := Dict.ofList [("P", "bob"), ("A", "a2"), ("B", "5")]
    (m.findBinding condition []).map (·.assign "P") = some "ann" ∧
      m.findBinding condition negated = some b ∧
      ((∃ σ, m.Fulfils condition negated σ) ∧ m.Fulfils condition negated b.assign) ∧
      (m.add "owner" ["ann", "a1"]).satisfies ⟨"rich", condition.reverse, negated⟩ =
        m.satisfies ⟨"rich", condition, negated⟩ := by
  intro m condition negated b
  have hfound : m.findBinding condition negated = some b := by decide +kernel
  obtain ⟨hexists, hspec, hcongr⟩ := findBinding_first m condition negated
  have hrepeated (place : String) (t : Tuple) :
      t ∈ (m.add "owner" ["ann", "a1"]).tuples place ↔ t ∈ m.tuples place := by
    rw [tuples, add, Dict.get?_insert]
    split
    · next hplace =>
      subst hplace
      have hann : ["ann", "a1"] ∈ m.tuples "owner" := by decide +kernel
      simp only [Option.getD_some, List.mem_append, List.mem_singleton]
      exact or_iff_left_of_imp fun ht => ht ▸ hann
    · rfl
  exact ⟨by decide +kernel, hfound, ⟨hexists.mp (by rw [hfound]; rfl), (hspec b hfound).2.1⟩,
    hcongr _ _ _ _ _ (fun p => List.mem_reverse) (fun p => .rfl) hrepeated⟩

end Marking

end TestScribe

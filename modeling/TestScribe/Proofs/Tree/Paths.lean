import Mathlib.Data.List.Chain
import TestScribe.Proofs.Tree.Walk

/-!
# Paths

`LeadsTo` says what a path to a node is, from the child lists alone. There is one for each node
(`leadsTo_unique`), and `pathTo` gives it (`leadsTo_ancestry`). `Climbs` follows the loop that finds it from parent to
parent turn by turn, so that it holds only where the loop ends. A leaf is on no path but its own, so no leaf's path
starts another's (`eq_of_path_prefix`).
-/

namespace TestScribe.ExecutionTree

/-- A path to a node: with the root in front of it, each node is followed by one of its children, and the last one is
the node. -/
structure LeadsTo (t : ExecutionTree) (path : List NodeId) (id : NodeId) : Prop where
  steps : (root :: path).IsChain t.IsChild
  ends : (root :: path).getLast? = some id

/-- The loop from parent to parent ends and has come to these nodes, the lowest first and without the root. -/
inductive Climbs (t : ExecutionTree) : NodeId → List NodeId → Prop
  | top {id : NodeId} (hid : t.parentOf id = none) : Climbs t id []
  | up {id p : NodeId} {ids : List NodeId} (hp : t.parentOf id = some p) (h : Climbs t p ids) :
    Climbs t id (id :: ids)

variable {t : ExecutionTree} {id id' x : NodeId} {path path' ids ids' : List NodeId} {fuel : Nat}

theorem Climbs.unique (h : t.Climbs id ids) (h' : t.Climbs id ids') : ids = ids' := by
  induction h generalizing ids' with
  | top hid =>
    cases h' with
    | top => rfl
    | up hp => rw [hid] at hp; cases hp
  | up hp _ ih =>
    cases h' with
    | top hid => rw [hp] at hid; cases hid
    | up hp' h' =>
      obtain rfl := Option.some.inj (hp.symm.trans hp')
      rw [ih h']

theorem leadsTo_nil_iff : t.LeadsTo [] id ↔ id = root :=
  ⟨fun h => (Option.some.inj h.ends).symm, fun h => ⟨List.isChain_singleton root, h ▸ rfl⟩⟩

theorem leadsTo_concat_iff : t.LeadsTo (path ++ [x]) id ↔ x = id ∧ ∃ p, t.LeadsTo path p ∧ t.IsChild p id := by
  constructor
  · rintro ⟨hsteps, hends⟩
    rw [← List.cons_append, List.getLast?_concat] at hends
    obtain rfl := Option.some.inj hends
    rw [← List.cons_append, List.isChain_append] at hsteps
    obtain ⟨hpath, -, hlast⟩ := hsteps
    have hp := List.getLast?_eq_some_getLast (List.cons_ne_nil root path)
    exact ⟨rfl, _, ⟨hpath, hp⟩, hlast _ hp x rfl⟩
  · rintro ⟨rfl, p, ⟨hpath, hp⟩, hchild⟩
    refine ⟨?_, by rw [← List.cons_append, List.getLast?_concat]⟩
    rw [← List.cons_append, List.isChain_append]
    refine ⟨hpath, List.isChain_singleton x, fun p' hp' x' hx' => ?_⟩
    obtain rfl := Option.some.inj (hp.symm.trans hp')
    obtain rfl := Option.some.inj hx'
    exact hchild

namespace WellFormed

theorem leadsTo_unique (h : t.WellFormed) (hpath : t.LeadsTo path id) (hpath' : t.LeadsTo path' id) :
    path = path' := by
  induction path using List.reverseRecOn generalizing id path' with
  | nil =>
    obtain rfl := leadsTo_nil_iff.mp hpath
    rcases List.eq_nil_or_concat' path' with rfl | ⟨front', x', rfl⟩
    · rfl
    · obtain ⟨-, p, -, hchild⟩ := leadsTo_concat_iff.mp hpath'
      exact absurd rfl (h.ne_root_of_mem hchild).1
  | append_singleton front x ih =>
    obtain ⟨rfl, p, hfront, hchild⟩ := leadsTo_concat_iff.mp hpath
    rcases List.eq_nil_or_concat' path' with rfl | ⟨front', x', rfl⟩
    · exact absurd (leadsTo_nil_iff.mp hpath') (h.ne_root_of_mem hchild).1
    · obtain ⟨rfl, p', hfront', hchild'⟩ := leadsTo_concat_iff.mp hpath'
      obtain rfl := h.parent_unique hchild hchild'
      rw [ih hfront hfront']

/-- Parents have smaller ids, so there is fuel for all of them. -/
theorem leadsTo_ancestry (h : t.WellFormed) (hid : id < t.size) (hfuel : id < fuel) :
    t.LeadsTo (t.ancestry fuel id) id ∧ t.Climbs id (t.ancestry fuel id).reverse := by
  induction fuel generalizing id with
  | zero => exact absurd hfuel (Nat.not_lt_zero _)
  | succ fuel ih =>
    cases hp : t.parentOf id with
    | none =>
      rw [ancestry_of_no_parent hp]
      exact ⟨leadsTo_nil_iff.mpr ((h.parentOf_eq_none_iff hid).mp hp), .top hp⟩
    | some p =>
      have hlt := h.parentOf_lt id p hp
      obtain ⟨hpath, hclimb⟩ := ih (Nat.lt_trans hlt hid) (Nat.lt_of_lt_of_le hlt (Nat.le_of_lt_succ hfuel))
      rw [ancestry_of_parentOf hp, List.reverse_concat]
      exact ⟨leadsTo_concat_iff.mpr ⟨rfl, p, hpath, (h.mem_childrenOf p id).mpr hp⟩, .up hp hclimb⟩

theorem mem_path_self (h : t.WellFormed) (hleaf : id ∈ t.leaves) : id ∈ t.ancestry t.size id := by
  obtain ⟨hne, hlt, -⟩ := h.mem_leaves_iff.mp hleaf
  exact (h.mem_ancestry_iff hlt hlt).mpr ⟨hne, .refl⟩

theorem eq_of_path_prefix (h : t.WellFormed) (hleaf : id ∈ t.leaves) (hleaf' : id' ∈ t.leaves)
    (hstarts : t.ancestry t.size id <+: t.ancestry t.size id') : id = id' := by
  obtain ⟨-, -, hchildless⟩ := h.mem_leaves_iff.mp hleaf
  obtain ⟨-, hlt', -⟩ := h.mem_leaves_iff.mp hleaf'
  obtain ⟨-, hunder⟩ := (h.mem_ancestry_iff hlt' hlt').mp (hstarts.subset (h.mem_path_self hleaf))
  rcases Relation.ReflTransGen.cases_head hunder with heq | ⟨c, hc, -⟩
  · exact heq
  · -- The first leaf would have a child on the way to the second.
    rw [IsChild, hchildless] at hc
    cases hc

end WellFormed

end TestScribe.ExecutionTree

import TestScribe.Proofs.Tree.Walk

/-!
# Levels of a tree

`level` lists the nodes at a distance from the root. `Drains` follows the loop over a queue turn by turn, so that it
holds only where the loop ends. A queue that holds the rest of one level and the children of what it has listed of it
goes over to the next level (`drains_append`), so the walk level by level lists the levels one after another
(`breadthFirst_eq`). Every node but the root is in one of them, once.
-/

namespace TestScribe.ExecutionTree

/-- The nodes at a distance from the root: the children of the nodes one level up, in the order of these. -/
def level (t : ExecutionTree) : Nat → List NodeId
  | 0 => [root]
  | depth + 1 => (t.level depth).flatMap t.childrenOf

/-- The levels below the root down to a depth, one after another. -/
def levels (t : ExecutionTree) (depth : Nat) : List NodeId :=
  (List.range depth).flatMap fun k => t.level (k + 1)

/-- The loop ends and has listed these nodes: the first of the queue is taken off and listed, and its children join
at the end. -/
inductive Drains (t : ExecutionTree) : List NodeId → List NodeId → Prop
  | nil : Drains t [] []
  | cons {queue order : List NodeId} {id : NodeId} (h : Drains t (queue ++ t.childrenOf id) order) :
    Drains t (id :: queue) (id :: order)

variable {t : ExecutionTree} {x : NodeId} {depth depth' fuel : Nat} {queue order order' : List NodeId}

theorem mem_level_succ_iff : x ∈ t.level (depth + 1) ↔ ∃ p ∈ t.level depth, t.IsChild p x :=
  List.mem_flatMap

theorem levels_succ (t : ExecutionTree) (depth : Nat) :
    t.levels (depth + 1) = t.levels depth ++ t.level (depth + 1) := by
  rw [levels, List.range_succ, List.flatMap_append, List.flatMap_singleton, levels]

theorem mem_levels_iff : x ∈ t.levels depth ↔ ∃ k < depth, x ∈ t.level (k + 1) := by
  simp only [levels, List.mem_flatMap, List.mem_range]

/-! ### The queue -/

/-- The loop takes one turn for each node that it lists. -/
theorem Drains.queueFrom_eq (h : t.Drains queue order) (hfuel : order.length ≤ fuel) :
    t.queueFrom fuel queue = order := by
  induction h generalizing fuel with
  | nil => cases fuel <;> rfl
  | cons _ ih =>
    obtain ⟨fuel, rfl⟩ := Nat.exists_eq_add_one_of_ne_zero (Nat.ne_zero_of_lt hfuel)
    rw [queueFrom, ih (Nat.le_of_succ_le_succ hfuel)]

theorem Drains.unique (h : t.Drains queue order) (h' : t.Drains queue order') : order = order' := by
  rw [← h.queueFrom_eq (Nat.le_add_right order.length order'.length), h'.queueFrom_eq (Nat.le_add_left _ _)]

theorem drains_append {front back : List NodeId} (h : t.Drains (back ++ front.flatMap t.childrenOf) order) :
    t.Drains (front ++ back) (front ++ order) := by
  induction front generalizing back with
  | nil => rwa [List.flatMap_nil, List.append_nil] at h
  | cons id front ih =>
    rw [List.flatMap_cons, ← List.append_assoc] at h
    have hrest := ih h
    rw [← List.append_assoc] at hrest
    exact .cons hrest

theorem drains_levels (h : t.Drains (t.level (depth + 1)) order) :
    t.Drains (t.level 1) (t.levels depth ++ order) := by
  induction depth generalizing order with
  | zero => exact h
  | succ depth ih =>
    have hlevel : t.Drains (t.level (depth + 1) ++ []) (t.level (depth + 1) ++ order) := drains_append h
    rw [List.append_nil] at hlevel
    rw [levels_succ, List.append_assoc]
    exact ih hlevel

namespace WellFormed

/-! ### The levels -/

/-- Each step down makes the id larger. -/
theorem le_of_mem_level (h : t.WellFormed) (hx : x ∈ t.level depth) : depth ≤ x := by
  induction depth generalizing x with
  | zero => exact Nat.zero_le x
  | succ depth ih =>
    obtain ⟨p, hp, hchild⟩ := mem_level_succ_iff.mp hx
    exact Nat.lt_of_le_of_lt (ih hp) (h.lt_of_mem hchild).1

theorem of_mem_level_succ (h : t.WellFormed) (hx : x ∈ t.level (depth + 1)) : x ≠ root ∧ x < t.size := by
  obtain ⟨p, -, hchild⟩ := mem_level_succ_iff.mp hx
  exact h.ne_root_of_mem hchild

theorem level_eq_nil (h : t.WellFormed) (hdepth : t.size ≤ depth + 1) : t.level (depth + 1) = [] :=
  List.eq_nil_iff_forall_not_mem.mpr fun _ hx =>
    absurd (Nat.le_trans hdepth (h.le_of_mem_level hx)) (Nat.not_le_of_lt (h.of_mem_level_succ hx).2)

theorem depth_unique (h : t.WellFormed) (hx : x ∈ t.level depth) (hx' : x ∈ t.level depth') : depth = depth' := by
  induction depth generalizing x depth' with
  | zero =>
    cases depth' with
    | zero => rfl
    | succ depth' => exact absurd (List.mem_singleton.mp hx) (h.of_mem_level_succ hx').1
  | succ depth ih =>
    cases depth' with
    | zero => exact absurd (List.mem_singleton.mp hx') (h.of_mem_level_succ hx).1
    | succ depth' =>
      obtain ⟨p, hp, hchild⟩ := mem_level_succ_iff.mp hx
      obtain ⟨p', hp', hchild'⟩ := mem_level_succ_iff.mp hx'
      obtain rfl := h.parent_unique hchild hchild'
      rw [ih hp hp']

theorem exists_level (h : t.WellFormed) (hx : x < t.size) : ∃ depth, x ∈ t.level depth := by
  induction h.under_root hx with
  | refl => exact ⟨0, List.mem_singleton_self root⟩
  | tail _ hchild ih =>
    obtain ⟨depth, hp⟩ := ih (Nat.lt_trans (h.lt_of_mem hchild).1 hx)
    exact ⟨depth + 1, mem_level_succ_iff.mpr ⟨_, hp, hchild⟩⟩

theorem nodup_level (h : t.WellFormed) (depth : Nat) : (t.level depth).Nodup := by
  induction depth with
  | zero => exact List.pairwise_singleton _ root
  | succ depth ih =>
    refine List.pairwise_flatMap.mpr ⟨fun p _ => (h.sorted p).imp fun hlt => Nat.ne_of_lt hlt, ih.imp ?_⟩
    -- What is a child of both is the child of one node.
    rintro p p' hne x hx _ hx' rfl
    exact hne (h.parent_unique hx hx')

theorem nodup_levels (h : t.WellFormed) (depth : Nat) : (t.levels depth).Nodup := by
  refine List.pairwise_flatMap.mpr ⟨fun k _ => h.nodup_level (k + 1), List.nodup_range.imp ?_⟩
  rintro k k' hne x hx _ hx' rfl
  exact hne (Nat.succ.inj (h.depth_unique hx hx'))

theorem length_levels (h : t.WellFormed) (depth : Nat) : (t.levels depth).length ≤ t.size := by
  refine length_le_size (h.nodup_levels depth) fun x hx => ?_
  obtain ⟨k, -, hx⟩ := mem_levels_iff.mp hx
  exact (h.of_mem_level_succ hx).2

/-! ### The walk level by level -/

theorem drains_children_root (h : t.WellFormed) : t.Drains (t.childrenOf root) (t.levels t.size) := by
  have hend : t.Drains (t.level (t.size + 1)) [] := (h.level_eq_nil (Nat.le_succ t.size)).symm ▸ .nil
  have hroot : t.level 1 = t.childrenOf root := List.flatMap_singleton ..
  rw [← hroot, ← List.append_nil (t.levels t.size)]
  exact drains_levels hend

/-- The queue does not run out of fuel: the levels hold no more than all nodes. -/
theorem breadthFirst_eq (h : t.WellFormed) : t.breadthFirst = t.levels t.size :=
  h.drains_children_root.queueFrom_eq (h.length_levels t.size)

theorem nodup_breadthFirst (h : t.WellFormed) : t.breadthFirst.Nodup :=
  h.breadthFirst_eq ▸ h.nodup_levels t.size

theorem mem_breadthFirst_iff (h : t.WellFormed) : x ∈ t.breadthFirst ↔ x ≠ root ∧ x < t.size := by
  rw [h.breadthFirst_eq, mem_levels_iff]
  constructor
  · rintro ⟨k, -, hx⟩
    exact h.of_mem_level_succ hx
  · rintro ⟨hne, hlt⟩
    obtain ⟨depth, hx⟩ := h.exists_level hlt
    cases depth with
    | zero => exact absurd (List.mem_singleton.mp hx) hne
    | succ k => exact ⟨k, Nat.lt_trans (Nat.lt_of_succ_le (h.le_of_mem_level hx)) hlt, hx⟩

end WellFormed

end TestScribe.ExecutionTree

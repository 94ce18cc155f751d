import Mathlib.Logic.Relation
import TestScribe.Proofs.Tree.Reachable

/-!
# Walks of a well-formed tree

`preorder` is the recursion that `leaves` carries out on a stack (`leavesFrom_eq`). Below a node it meets
every node once, so the stack never runs out of fuel. `Under a x` says that `x` is `a` or stands below it;
the path to a node holds those nodes but the root that the node is under.
-/

namespace TestScribe.ExecutionTree

variable {t : ExecutionTree} {a b x p id : NodeId}

def IsChild (t : ExecutionTree) (p c : NodeId) : Prop :=
  c ∈ t.childrenOf p

/-- `x` is `a` or stands below it. -/
def Under (t : ExecutionTree) (a x : NodeId) : Prop :=
  Relation.ReflTransGen t.IsChild a x

/-- Nodes listed once are no more than there are. -/
theorem length_le_size {ids : List NodeId} (hnodup : ids.Nodup) (hids : ∀ id ∈ ids, id < t.size) :
    ids.length ≤ t.size := by
  have hsub : ids ⊆ List.range t.size := fun id hid => List.mem_range.mpr (hids id hid)
  have hlen := hnodup.length_le_of_subset hsub
  rwa [List.length_range] at hlen

namespace WellFormed

theorem under_le (h : t.WellFormed) (hx : t.Under a x) : a ≤ x := by
  induction hx with
  | refl => exact Nat.le_refl _
  | tail _ hc ih => exact Nat.le_trans ih (Nat.le_of_lt (h.lt_of_mem hc).1)

theorem under_lt_size (h : t.WellFormed) (ha : a < t.size) (hx : t.Under a x) : x < t.size := by
  cases hx with
  | refl => exact ha
  | tail _ hc => exact (h.lt_of_mem hc).2

theorem parent_unique (h : t.WellFormed) (hp : t.IsChild p x) (ha : t.IsChild a x) : p = a := by
  have hparent := (h.mem_childrenOf p x).mp hp
  rw [(h.mem_childrenOf a x).mp ha] at hparent
  exact (Option.some.inj hparent).symm

/-- The nodes that a node is under form a chain. -/
theorem under_total (h : t.WellFormed) (ha : t.Under a x) (hb : t.Under b x) :
    t.Under a b ∨ t.Under b a := by
  -- Read upwards, the child relation is a function.
  have hunique : Relator.RightUnique (Function.swap t.IsChild) := fun _ _ _ => h.parent_unique
  have htotal := Relation.ReflTransGen.total_of_right_unique hunique
    (Relation.reflTransGen_swap.mpr ha) (Relation.reflTransGen_swap.mpr hb)
  rcases htotal with hab | hba
  · exact .inr (Relation.reflTransGen_swap.mp hab)
  · exact .inl (Relation.reflTransGen_swap.mp hba)

theorem eq_of_under_sibling (h : t.WellFormed) (ha : t.IsChild p a) (hb : t.IsChild p b)
    (hab : t.Under a b) : a = b := by
  rcases Relation.ReflTransGen.cases_tail hab with rfl | ⟨q, haq, hq⟩
  · rfl
  · obtain rfl := h.parent_unique hb hq
    exact absurd (h.under_le haq) (Nat.not_le_of_lt (h.lt_of_mem ha).1)

theorem under_root (h : t.WellFormed) (hx : x < t.size) : t.Under root x := by
  induction x using Nat.strongRecOn with
  | ind x ih =>
    by_cases hroot : x = root
    · subst hroot; exact .refl
    · obtain ⟨p, hp⟩ := h.exists_parentOf x hroot hx
      have hlt := h.parentOf_lt x p hp
      exact (ih p hlt (Nat.lt_trans hlt hx)).tail ((h.mem_childrenOf p x).mpr hp)

/-- What a node inherits from its children holds of every node. -/
theorem children_induction (h : t.WellFormed) {motive : NodeId → Prop}
    (step : ∀ id, (∀ c ∈ t.childrenOf id, motive c) → motive id) (id : NodeId) : motive id :=
  step id fun c hc =>
    have hlt := h.lt_of_mem hc
    have : t.size - c < t.size - id := Nat.sub_lt_sub_left (Nat.lt_trans hlt.1 hlt.2) hlt.1
    h.children_induction step c
termination_by t.size - id

theorem exists_leaf_under (h : t.WellFormed) (hx : x < t.size) :
    ∃ l, t.Under x l ∧ l < t.size ∧ t.childrenOf l = [] := by
  induction x using h.children_induction with
  | step x ih =>
    cases hc : t.childrenOf x with
    | nil => exact ⟨x, .refl, hx, hc⟩
    | cons c cs =>
      have hmem : c ∈ t.childrenOf x := hc ▸ List.mem_cons_self
      obtain ⟨l, hl, hleaf⟩ := ih c hmem (h.lt_of_mem hmem).2
      exact ⟨l, hl.head hmem, hleaf⟩

/-! ### Depth-first -/

/-- A node and what is below it, each node before its children and these in order. -/
def preorder (h : t.WellFormed) (id : NodeId) : List NodeId :=
  id :: (t.childrenOf id).attach.flatMap fun c => preorder h c.1
termination_by t.size - id
decreasing_by
  have hlt := h.lt_of_mem c.2
  exact Nat.sub_lt_sub_left (Nat.lt_trans hlt.1 hlt.2) hlt.1

theorem preorder_eq (h : t.WellFormed) (id : NodeId) :
    h.preorder id = id :: (t.childrenOf id).flatMap h.preorder := by
  rw [preorder, List.flatMap_subtype fun _ _ => rfl, List.unattach_attach]

theorem mem_preorder_iff (h : t.WellFormed) : x ∈ h.preorder id ↔ t.Under id x := by
  constructor
  · induction id using h.children_induction with
    | step id ih =>
      intro hx
      rw [preorder_eq, List.mem_cons, List.mem_flatMap] at hx
      rcases hx with rfl | ⟨c, hc, hx⟩
      · exact .refl
      · exact (ih c hc hx).head hc
  · intro hx
    induction hx using Relation.ReflTransGen.head_induction_on with
    | refl => rw [preorder_eq]; exact List.mem_cons_self
    | head hc _ ih =>
      rw [preorder_eq]
      exact List.mem_cons_of_mem _ (List.mem_flatMap.mpr ⟨_, hc, ih⟩)

theorem nodup_preorder (h : t.WellFormed) (id : NodeId) : (h.preorder id).Nodup := by
  induction id using h.children_induction with
  | step id ih =>
    rw [preorder_eq, List.nodup_cons]
    refine ⟨fun hid => ?_, List.pairwise_flatMap.mpr ⟨ih, (h.sorted id).imp_of_mem ?_⟩⟩
    · obtain ⟨c, hc, hid⟩ := List.mem_flatMap.mp hid
      exact absurd (h.under_le (h.mem_preorder_iff.mp hid)) (Nat.not_le_of_lt (h.lt_of_mem hc).1)
    · -- Siblings are not under one another, so nothing is under both.
      rintro c d hc hd hlt x hx _ hy rfl
      rcases h.under_total (h.mem_preorder_iff.mp hx) (h.mem_preorder_iff.mp hy) with hcd | hdc
      · exact absurd (h.eq_of_under_sibling hc hd hcd) (Nat.ne_of_lt hlt)
      · exact absurd (h.eq_of_under_sibling hd hc hdc) (Nat.ne_of_gt hlt)

theorem mem_preorder_root (h : t.WellFormed) : x ∈ h.preorder root ↔ x < t.size :=
  h.mem_preorder_iff.trans ⟨h.under_lt_size h.size_pos, h.under_root⟩

theorem length_preorder_root (h : t.WellFormed) : (h.preorder root).length ≤ t.size :=
  length_le_size (h.nodup_preorder root) fun _ => h.mem_preorder_root.mp

/-- With fuel for every node, the walk lists the leaves of the subtrees on the stack. -/
theorem leavesFrom_eq (h : t.WellFormed) {fuel : Nat} {stack : List NodeId}
    (hfuel : (stack.flatMap h.preorder).length ≤ fuel) :
    t.leavesFrom fuel stack = (stack.flatMap h.preorder).filter fun id => (t.childrenOf id).isEmpty := by
  induction fuel generalizing stack with
  | zero => rw [leavesFrom, List.eq_nil_of_length_eq_zero (Nat.le_zero.mp hfuel), List.filter_nil]
  | succ fuel ih =>
    cases stack with
    | nil => rfl
    | cons id stack =>
      -- The node on top of the stack is the first of the list; the rest is the new stack's.
      rw [List.flatMap_cons, preorder_eq, List.cons_append, List.length_cons] at hfuel
      rw [leavesFrom, List.flatMap_cons, preorder_eq, List.cons_append]
      cases hc : t.childrenOf id with
      | nil =>
        rw [hc, List.flatMap_nil, List.nil_append] at hfuel
        rw [List.filter_cons_of_pos (by simp [hc]), List.flatMap_nil, List.nil_append,
          ← ih (Nat.le_of_succ_le_succ hfuel)]
      | cons c cs =>
        rw [hc, ← List.flatMap_append] at hfuel
        rw [List.filter_cons_of_neg (by simp [hc]), ← List.flatMap_append,
          ← ih (Nat.le_of_succ_le_succ hfuel)]

theorem leaves_eq (h : t.WellFormed) :
    t.leaves = ((t.childrenOf root).flatMap h.preorder).filter fun id => (t.childrenOf id).isEmpty := by
  have hlen := h.length_preorder_root
  rw [preorder_eq, List.length_cons] at hlen
  exact h.leavesFrom_eq (Nat.le_of_succ_le hlen)

theorem mem_leaves_iff (h : t.WellFormed) :
    id ∈ t.leaves ↔ id ≠ root ∧ id < t.size ∧ t.childrenOf id = [] := by
  have hnodup := h.nodup_preorder root
  rw [preorder_eq, List.nodup_cons] at hnodup
  rw [h.leaves_eq, List.mem_filter, List.isEmpty_iff, ← h.mem_preorder_root, preorder_eq, List.mem_cons]
  constructor
  · rintro ⟨hmem, hleaf⟩
    exact ⟨fun hroot => hnodup.1 (hroot ▸ hmem), .inr hmem, hleaf⟩
  · rintro ⟨hroot, hid | hmem, hleaf⟩
    · exact absurd hid hroot
    · exact ⟨hmem, hleaf⟩

theorem nodup_leaves (h : t.WellFormed) : t.leaves.Nodup := by
  have hnodup := h.nodup_preorder root
  rw [preorder_eq, List.nodup_cons] at hnodup
  rw [h.leaves_eq]
  exact hnodup.2.filter _

/-! ### Paths -/

theorem mem_ancestry_iff (h : t.WellFormed) {fuel : Nat} (hid : id < t.size) (hfuel : id < fuel) :
    x ∈ t.ancestry fuel id ↔ x ≠ root ∧ t.Under x id := by
  induction fuel generalizing id with
  | zero => exact absurd hfuel (Nat.not_lt_zero _)
  | succ fuel ih =>
    cases hp : t.parentOf id with
    | none =>
      obtain rfl := (h.parentOf_eq_none_iff hid).mp hp
      rw [ancestry_of_no_parent hp]
      refine ⟨fun hx => absurd hx List.not_mem_nil, fun ⟨hne, hx⟩ => ?_⟩
      exact absurd (Nat.le_zero.mp (h.under_le hx)) hne
    | some p =>
      have hlt := h.parentOf_lt id p hp
      have hchild : t.IsChild p id := (h.mem_childrenOf p id).mpr hp
      rw [ancestry_of_parentOf hp, List.mem_append, List.mem_singleton,
        ih (Nat.lt_trans hlt hid) (Nat.lt_of_lt_of_le hlt (Nat.le_of_lt_succ hfuel))]
      constructor
      · rintro (⟨hne, hx⟩ | rfl)
        · exact ⟨hne, hx.tail hchild⟩
        · exact ⟨Nat.ne_of_gt (Nat.lt_of_le_of_lt (Nat.zero_le p) hlt), .refl⟩
      · rintro ⟨hne, hx⟩
        rcases Relation.ReflTransGen.cases_tail hx with rfl | ⟨q, hxq, hq⟩
        · exact .inr rfl
        · exact .inl ⟨hne, h.parent_unique hq hchild ▸ hxq⟩

theorem pathTo_ok (hid : id < t.size) : t.pathTo id = .ok (t.ancestry t.size id) :=
  if_pos hid

theorem pathTo_eq_ok_iff {path : List NodeId} :
    t.pathTo id = .ok path ↔ id < t.size ∧ t.ancestry t.size id = path := by
  rw [pathTo]
  split
  · next hlt => simp [hlt]
  · next hlt => simp [hlt]

theorem pathTo_of_unknown (hid : t.size ≤ id) : t.pathTo id = .error (.unknownNode id) :=
  if_neg (Nat.not_lt.mpr hid)

/-- The paths to the leaves cover the tree. -/
theorem mem_path_iff (h : t.WellFormed) :
    x ∈ t.leaves.flatMap (t.ancestry t.size) ↔ x ≠ root ∧ x < t.size := by
  rw [List.mem_flatMap]
  constructor
  · rintro ⟨leaf, hleaf, hx⟩
    obtain ⟨-, hlt, -⟩ := h.mem_leaves_iff.mp hleaf
    obtain ⟨hne, hunder⟩ := (h.mem_ancestry_iff hlt hlt).mp hx
    exact ⟨hne, Nat.lt_of_le_of_lt (h.under_le hunder) hlt⟩
  · rintro ⟨hne, hx⟩
    obtain ⟨leaf, hunder, hlt, hleaf⟩ := h.exists_leaf_under hx
    have hroot : leaf ≠ root := by
      rintro rfl
      exact hne (Nat.le_zero.mp (h.under_le hunder))
    exact ⟨leaf, h.mem_leaves_iff.mpr ⟨hroot, hlt, hleaf⟩, (h.mem_ancestry_iff hlt hlt).mpr ⟨hne, hunder⟩⟩

end WellFormed

end TestScribe.ExecutionTree

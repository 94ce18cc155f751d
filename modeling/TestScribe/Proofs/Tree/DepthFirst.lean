import Mathlib.Data.List.Induction
import TestScribe.Proofs.Tree.Walk

/-!
# The loop that lists the leaves

`Unwinds` follows the loop over a stack turn by turn, so that it holds only where the loop ends. The stack holds the
subtrees that are still to be walked in reverse: what the loop lists are the leaves of these in preorder
(`unwinds_iff`), and this is what `leaves` gives (`leaves_depthFirst`).
-/

namespace TestScribe.ExecutionTree

/-- The loop ends and has listed these leaves. The top of the stack is its last node: a leaf is taken off and
listed, and any other node is taken off for its children, the last of them pushed first. -/
inductive Unwinds (t : ExecutionTree) : List NodeId → List NodeId → Prop
  | nil : Unwinds t [] []
  | leaf {stack leaves : List NodeId} {id : NodeId} (hid : t.childrenOf id = []) (h : Unwinds t stack leaves) :
    Unwinds t (stack ++ [id]) (id :: leaves)
  | inner {stack leaves : List NodeId} {id : NodeId} (hid : t.childrenOf id ≠ [])
    (h : Unwinds t (stack ++ (t.childrenOf id).reverse) leaves) : Unwinds t (stack ++ [id]) leaves

variable {t : ExecutionTree} {id : NodeId} {stack leaves ids : List NodeId}

namespace WellFormed

/-- The leaves of some subtrees in preorder. -/
def leavesUnder (h : t.WellFormed) (ids : List NodeId) : List NodeId :=
  (ids.flatMap h.preorder).filter fun id => (t.childrenOf id).isEmpty

theorem leavesUnder_append (h : t.WellFormed) (ids ids' : List NodeId) :
    h.leavesUnder (ids ++ ids') = h.leavesUnder ids ++ h.leavesUnder ids' := by
  rw [leavesUnder, List.flatMap_append, List.filter_append, leavesUnder, leavesUnder]

theorem leavesUnder_cons (h : t.WellFormed) (id : NodeId) (ids : List NodeId) :
    h.leavesUnder (id :: ids) = h.leavesUnder [id] ++ h.leavesUnder ids :=
  h.leavesUnder_append [id] ids

theorem leavesUnder_of_leaf (h : t.WellFormed) (hid : t.childrenOf id = []) : h.leavesUnder [id] = [id] := by
  rw [leavesUnder, List.flatMap_singleton, preorder_eq, hid, List.flatMap_nil,
    List.filter_cons_of_pos (by rw [hid]; rfl), List.filter_nil]

theorem leavesUnder_of_inner (h : t.WellFormed) (hid : t.childrenOf id ≠ []) :
    h.leavesUnder [id] = h.leavesUnder (t.childrenOf id) := by
  rw [leavesUnder, List.flatMap_singleton, preorder_eq, List.filter_cons_of_neg (by simp [hid]), leavesUnder]

/-- A subtree is walked before what is below it on the stack, whatever that is. -/
theorem unwinds_push (h : t.WellFormed) (id : NodeId) :
    ∀ {stack leaves}, t.Unwinds stack leaves → t.Unwinds (stack ++ [id]) (h.leavesUnder [id] ++ leaves) := by
  induction id using h.children_induction with
  | step id ih =>
    intro stack leaves hstack
    by_cases hid : t.childrenOf id = []
    · rw [h.leavesUnder_of_leaf hid]
      exact .leaf hid hstack
    · rw [h.leavesUnder_of_inner hid]
      refine .inner hid ?_
      -- The children are pushed from the last to the first.
      generalize t.childrenOf id = children at ih
      induction children with
      | nil => rwa [List.reverse_nil, List.append_nil]
      | cons c children ihc =>
        obtain ⟨hc, hchildren⟩ := List.forall_mem_cons.mp ih
        rw [List.reverse_cons, ← List.append_assoc, leavesUnder_cons, List.append_assoc (h.leavesUnder [c])]
        exact hc (ihc hchildren)

/-- The loop ends from every stack, and it lists the leaves of the subtrees on it, the top one's first. -/
theorem unwinds_iff (h : t.WellFormed) : t.Unwinds stack leaves ↔ leaves = h.leavesUnder stack.reverse := by
  constructor
  · intro hstack
    induction hstack with
    | nil => rfl
    | leaf hid _ ih => rw [List.reverse_concat, leavesUnder_cons, h.leavesUnder_of_leaf hid, ih]; rfl
    | inner hid _ ih =>
      rw [List.reverse_concat, leavesUnder_cons, h.leavesUnder_of_inner hid, ih, List.reverse_append,
        List.reverse_reverse, leavesUnder_append]
  · rintro rfl
    induction stack using List.reverseRecOn with
    | nil => exact .nil
    | append_singleton stack id ih =>
      rw [List.reverse_concat, leavesUnder_cons]
      exact h.unwinds_push id ih

theorem leaves_eq_nil_iff (h : t.WellFormed) : t.leaves = [] ↔ t.size = 1 := by
  constructor
  · intro hnil
    refine Nat.le_antisymm (Nat.le_of_not_lt fun hsize => ?_) h.size_pos
    -- Below a second node there is a leaf.
    obtain ⟨leaf, hunder, hlt, hleaf⟩ := h.exists_leaf_under hsize
    have hne : leaf ≠ root := Nat.ne_of_gt (h.under_le hunder)
    have hmem := h.mem_leaves_iff.mpr ⟨hne, hlt, hleaf⟩
    rw [hnil] at hmem
    cases hmem
  · intro hsize
    refine List.eq_nil_iff_forall_not_mem.mpr fun leaf hmem => ?_
    obtain ⟨hne, hlt, -⟩ := h.mem_leaves_iff.mp hmem
    rw [hsize, Nat.lt_one_iff] at hlt
    exact hne hlt

end WellFormed

/-- The leaves are the nodes but the root that have no children, each once, in the order of the recursion that lists
a node before its children and these in the order they were added. The loop over a stack ends and lists just them,
and there are none only where there is no node but the root. -/
theorem leaves_depthFirst (h : t.Reachable) :
    let preorder := h.wellFormed.preorder
    (∀ id, id ∈ t.leaves ↔ id ≠ root ∧ id < t.size ∧ t.childrenOf id = []) ∧ t.leaves.Nodup ∧
      (∀ id, preorder id = id :: (t.childrenOf id).flatMap preorder) ∧
      (∀ id, (t.childrenOf id).Pairwise (· < ·)) ∧
      t.leaves = ((t.childrenOf root).flatMap preorder).filter (fun id => (t.childrenOf id).isEmpty) ∧
      (∀ leaves, t.Unwinds (t.childrenOf root).reverse leaves ↔ leaves = t.leaves) ∧
      (t.leaves = [] ↔ t.size = 1) := by
  intro preorder
  have hwf := h.wellFormed
  refine ⟨fun _ => hwf.mem_leaves_iff, hwf.nodup_leaves, hwf.preorder_eq, hwf.sorted, hwf.leaves_eq,
    fun leaves => ?_, hwf.leaves_eq_nil_iff⟩
  rw [hwf.unwinds_iff, List.reverse_reverse, hwf.leaves_eq, WellFormed.leavesUnder]

/-- A child that is added to the first test when the second is there comes before the second all the same. -/
theorem leaves_depthFirst_interleaved :
    let login := Step.firing (.named "login")
    let t := ((((rooted .standard (.constructor "new") ∅).withStep 0 login).withStep 1 login).withStep 0
      login).withStep 1 login
    t.Reachable ∧ t.childrenOf root = [1, 3] ∧ t.childrenOf 1 = [2, 4] ∧ t.leaves = [2, 4, 3] ∧ t.leaves.Nodup ∧
      t.Unwinds [3, 1] [2, 4, 3] ∧ (t.leaves = [] ↔ t.size = 1) := by
  intro login t
  have hreachable : t.Reachable :=
    ((((Reachable.rooted .standard (.constructor "new") ∅).withStep 0 login).withStep 1 login).withStep 0
      login).withStep 1 login
  have hroot : t.childrenOf root = [1, 3] := by decide +kernel
  have hleaves : t.leaves = [2, 4, 3] := by decide +kernel
  obtain ⟨-, hnodup, -, -, -, hunwinds, hnil⟩ := leaves_depthFirst hreachable
  rw [hroot] at hunwinds
  exact ⟨hreachable, hroot, by decide +kernel, hleaves, hnodup, (hunwinds [2, 4, 3]).mpr hleaves.symm, hnil⟩

end TestScribe.ExecutionTree

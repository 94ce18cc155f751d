import Mathlib.Data.Set.Card
import Mathlib.Order.Interval.Set.Nat
import TestScribe.Proofs.Tree.Walk

/-!
# Trees with their nodes numbered differently

Nodes are numbered in the order they are added, so the same steps can be numbered in many ways. In
`t.Renumbered f t'` each node of `t` stands at the same place in `t'` under the number that `f` gives it. Walks go
through the same places in the same order (`leaves`, `breadthFirst`, `ancestry`).
-/

namespace TestScribe

/-- The node with other numbers for itself, its parent and its children. -/
def Node.renumber (f : NodeId → NodeId) (n : Node) : Node :=
  { n with id := f n.id, parent := n.parent.map f, children := n.children.map f }

namespace ExecutionTree

/-- Up to the slots, the trees have the same nodes, linked in the same way and children in the same order: the
node `i` of the one is `f i` in the other. -/
structure Renumbered (f : NodeId → NodeId) (t t' : ExecutionTree) : Prop where
  kind : t.kind = t'.kind
  bijOn : Set.BijOn f (Set.Iio t.size) (Set.Iio t'.size)
  root : f root = root
  node? : ∀ i < t.size, t'.clear.node? (f i) = (t.clear.node? i).map (Node.renumber f)

namespace Renumbered

variable {f : NodeId → NodeId} {t t' : ExecutionTree} {i : NodeId}

theorem size_eq (h : t.Renumbered f t') : t.size = t'.size := by
  have hcard := h.bijOn.ncard_eq
  rwa [Set.ncard_Iio_nat, Set.ncard_Iio_nat] at hcard

theorem lt_size (h : t.Renumbered f t') (hi : i < t.size) : f i < t'.size :=
  h.bijOn.mapsTo hi

theorem parentOf (h : t.Renumbered f t') (hi : i < t.size) : t'.parentOf (f i) = (t.parentOf i).map f := by
  rw [← t'.parentOf_clear, ← t.parentOf_clear, ExecutionTree.parentOf, h.node? i hi, ExecutionTree.parentOf]
  cases t.clear.node? i <;> rfl

theorem childrenOf (h : t.Renumbered f t') (hi : i < t.size) :
    t'.childrenOf (f i) = (t.childrenOf i).map f := by
  rw [← t'.childrenOf_clear, ← t.childrenOf_clear, childrenOf_eq, h.node? i hi, childrenOf_eq]
  cases t.clear.node? i <;> rfl

theorem childrenOf_root (h : t.Renumbered f t') (hw : t.WellFormed) :
    t'.childrenOf ExecutionTree.root = (t.childrenOf ExecutionTree.root).map f := by
  rw [← h.childrenOf (i := ExecutionTree.root) hw.size_pos, h.root]

/-- What is read off a node other than its numbers and slots is the same at both places. -/
theorem map_node? {α : Type} {F : Node → α} (h : t.Renumbered f t') (hi : i < t.size)
    (hclear : ∀ n, F n.clear = F n) (hnumbers : ∀ n : Node, F (n.renumber f) = F n) :
    (t'.node? (f i)).map F = (t.node? i).map F := by
  have hmap (u : ExecutionTree) (j : NodeId) : (u.node? j).map F = (u.clear.node? j).map F := by
    rw [node?_clear, Option.map_map]
    exact congrArg ((u.node? j).map ·) (funext fun n => (hclear n).symm)
  rw [hmap t' (f i), hmap t i, h.node? i hi, Option.map_map]
  exact congrArg ((t.clear.node? i).map ·) (funext hnumbers)

/-! ### Walks -/

theorem leavesFrom (h : t.Renumbered f t') (hw : t.WellFormed) (fuel : Nat) {stack : List NodeId}
    (hstack : ∀ x ∈ stack, x < t.size) :
    t'.leavesFrom fuel (stack.map f) = (t.leavesFrom fuel stack).map f := by
  induction fuel generalizing stack with
  | zero => rfl
  | succ fuel ih =>
    cases stack with
    | nil => rfl
    | cons id stack =>
      obtain ⟨hid, hstack⟩ := List.forall_mem_cons.mp hstack
      rw [List.map_cons, ExecutionTree.leavesFrom, h.childrenOf hid, ExecutionTree.leavesFrom]
      cases hc : t.childrenOf id with
      | nil => exact congrArg (f id :: ·) (ih hstack)
      | cons c cs =>
        have hbelow : ∀ x ∈ (c :: cs) ++ stack, x < t.size := fun x hx => by
          rcases List.mem_append.mp hx with hx | hx
          · exact (hw.lt_of_mem (hc ▸ hx)).2
          · exact hstack x hx
        have hnext := ih hbelow
        rw [List.map_append] at hnext
        exact hnext

theorem queueFrom (h : t.Renumbered f t') (hw : t.WellFormed) (fuel : Nat) {queue : List NodeId}
    (hqueue : ∀ x ∈ queue, x < t.size) :
    t'.queueFrom fuel (queue.map f) = (t.queueFrom fuel queue).map f := by
  induction fuel generalizing queue with
  | zero => rfl
  | succ fuel ih =>
    cases queue with
    | nil => rfl
    | cons id queue =>
      obtain ⟨hid, hqueue⟩ := List.forall_mem_cons.mp hqueue
      have hbelow : ∀ x ∈ queue ++ t.childrenOf id, x < t.size := fun x hx => by
        rcases List.mem_append.mp hx with hx | hx
        · exact hqueue x hx
        · exact (hw.lt_of_mem hx).2
      rw [List.map_cons, ExecutionTree.queueFrom, h.childrenOf hid, ← List.map_append, ih hbelow,
        ExecutionTree.queueFrom, List.map_cons]

theorem leaves (h : t.Renumbered f t') (hw : t.WellFormed) : t'.leaves = t.leaves.map f := by
  rw [ExecutionTree.leaves, h.childrenOf_root hw, ← h.size_eq, h.leavesFrom hw _ fun x hx => (hw.lt_of_mem hx).2,
    ExecutionTree.leaves]

theorem breadthFirst (h : t.Renumbered f t') (hw : t.WellFormed) :
    t'.breadthFirst = t.breadthFirst.map f := by
  rw [ExecutionTree.breadthFirst, h.childrenOf_root hw, ← h.size_eq, h.queueFrom hw _ fun x hx => (hw.lt_of_mem hx).2,
    ExecutionTree.breadthFirst]

theorem ancestry (h : t.Renumbered f t') (hw : t.WellFormed) (fuel : Nat) (hi : i < t.size) :
    t'.ancestry fuel (f i) = (t.ancestry fuel i).map f := by
  induction fuel generalizing i with
  | zero => rfl
  | succ fuel ih =>
    have hparent := h.parentOf hi
    cases hp : t.parentOf i with
    | none =>
      rw [hp, Option.map_none] at hparent
      rw [ancestry_of_no_parent hp, ancestry_of_no_parent hparent, List.map_nil]
    | some p =>
      rw [hp, Option.map_some] at hparent
      rw [ancestry_of_parentOf hp, ancestry_of_parentOf hparent,
        ih (Nat.lt_trans (hw.parentOf_lt i p hp) hi), List.map_append, List.map_singleton]

end Renumbered

end ExecutionTree

end TestScribe

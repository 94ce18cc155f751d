import TestScribe.Tree.Walk

/-!
# Trees up to their code slots

`clear` keeps all of a tree but its code, so two trees differ in nothing but code when they are equal once
cleared. The walks and the look-ups do not see the slots, and filling a slot is invisible to them.
-/

namespace TestScribe

namespace Node

variable {n : Node} {slot : Slot} {code : String}

@[simp]
theorem clear_fill (n : Node) (slot : Slot) (code : String) : (n.fill slot code).clear = n.clear := by
  cases slot <;> rfl

@[simp]
theorem toStep_clear (n : Node) : n.clear.toStep = n.toStep := rfl

@[simp]
theorem id_clear (n : Node) : n.clear.id = n.id := rfl

@[simp]
theorem testCaseId_clear (n : Node) : n.clear.testCaseId = n.testCaseId := rfl

@[simp]
theorem code?_clear (n : Node) (slot : Slot) : n.clear.code? slot = none := by
  cases slot <;> rfl

theorem code?_fill (n : Node) (slot slot' : Slot) (code : String) :
    (n.fill slot code).code? slot' =
      if slot' = slot then (n.code? slot).or (some code) else n.code? slot' := by
  cases slot <;> cases slot' <;> rfl

/-- A node is its cleared node and its two slots. -/
theorem ext_code {m : Node} (hclear : n.clear = m.clear) (hcode : ∀ slot, n.code? slot = m.code? slot) :
    n = m := by
  have hinput : n.inputCode = m.inputCode := hcode .input
  have horacle : n.oracleCode = m.oracleCode := hcode .oracle
  cases n; cases m
  simp_all [clear]

end Node

namespace ExecutionTree

variable {t t' : ExecutionTree} {id i p c : NodeId}

/-- The parent of a node; the root has none, and neither has an unknown node. -/
def parentOf (t : ExecutionTree) (id : NodeId) : Option NodeId :=
  (t.node? id).bind Node.parent

theorem ext_node? (hkind : t.kind = t'.kind) (hnode : ∀ i, t.node? i = t'.node? i) : t = t' := by
  obtain ⟨kind, nodes⟩ := t
  obtain ⟨kind', nodes'⟩ := t'
  obtain rfl : kind = kind' := hkind
  exact congrArg (mk kind) (Array.ext_getElem? hnode)

theorem exists_node (h : i < t.size) : ∃ n, t.node? i = some n :=
  ⟨t.nodes[i], Array.getElem?_eq_getElem h⟩

theorem lt_size {n : Node} (h : t.node? i = some n) : i < t.size :=
  (Array.getElem?_eq_some_iff.mp h).1

theorem node?_size (t : ExecutionTree) : t.node? t.size = none :=
  Array.getElem?_eq_none (Nat.le_refl _)

theorem childrenOf_eq (t : ExecutionTree) (id : NodeId) :
    t.childrenOf id = ((t.node? id).map Node.children).getD [] := by
  rw [childrenOf]
  cases t.node? id <;> rfl

/-! ### Slots -/

@[simp]
theorem node?_clear (t : ExecutionTree) (i : NodeId) : t.clear.node? i = (t.node? i).map Node.clear :=
  Array.getElem?_map

theorem node?_fill (t : ExecutionTree) (id : NodeId) (slot : Slot) (code : String) (i : NodeId) :
    (t.fill id slot code).node? i =
      if id = i then (t.node? i).map fun n => n.fill slot code else t.node? i :=
  Array.getElem?_modify

@[simp]
theorem clear_clear (t : ExecutionTree) : t.clear.clear = t.clear := by
  refine ext_node? rfl fun i => ?_
  rw [node?_clear, node?_clear, Option.map_map]
  rfl

@[simp]
theorem clear_fill (t : ExecutionTree) (id : NodeId) (slot : Slot) (code : String) :
    (t.fill id slot code).clear = t.clear := by
  refine ext_node? rfl fun i => ?_
  rw [node?_clear, node?_clear, node?_fill]
  split
  · rw [Option.map_map]
    cases t.node? i <;> simp
  · rfl

/-- What does not see the slots is the same on trees that differ in their slots. -/
theorem eq_of_clear_eq {β : Type} {f : ExecutionTree → β} (hf : ∀ t, f t.clear = f t)
    (h : t.clear = t'.clear) : f t = f t' := by
  rw [← hf, h, hf]

theorem clear_setCode {slot : Slot} {code : String} (h : t.setCode id slot code = .ok t') :
    t'.clear = t.clear := by
  rw [setCode] at h
  split at h
  · cases h
  · split at h
    · cases h
    · cases h; exact clear_fill t id slot code

theorem clear_codeOrFill {slot : Slot} {code text : String}
    (h : t.codeOrFill id slot code = .ok (text, t')) : t'.clear = t.clear := by
  rw [codeOrFill] at h
  split at h
  · cases h
  · cases h; exact clear_fill t id slot code

/-! ### What does not see the slots -/

@[simp]
theorem size_clear (t : ExecutionTree) : t.clear.size = t.size :=
  Array.size_map

@[simp]
theorem parentOf_clear (t : ExecutionTree) : t.clear.parentOf = t.parentOf := by
  funext id
  rw [parentOf, node?_clear, parentOf]
  cases t.node? id <;> rfl

@[simp]
theorem childrenOf_clear (t : ExecutionTree) : t.clear.childrenOf = t.childrenOf := by
  funext id
  rw [childrenOf_eq, node?_clear, childrenOf_eq]
  cases t.node? id <;> rfl

theorem leavesFrom_congr (h : t.childrenOf = t'.childrenOf) (fuel : Nat) (stack : List NodeId) :
    t.leavesFrom fuel stack = t'.leavesFrom fuel stack := by
  induction fuel generalizing stack with
  | zero => rfl
  | succ fuel ih =>
    cases stack with
    | nil => rfl
    | cons id stack => simp only [leavesFrom, h, ih]

theorem queueFrom_congr (h : t.childrenOf = t'.childrenOf) (fuel : Nat) (queue : List NodeId) :
    t.queueFrom fuel queue = t'.queueFrom fuel queue := by
  induction fuel generalizing queue with
  | zero => rfl
  | succ fuel ih =>
    cases queue with
    | nil => rfl
    | cons id queue => simp only [queueFrom, h, ih]

theorem ancestry_of_parentOf {fuel : Nat} (h : t.parentOf id = some p) :
    t.ancestry (fuel + 1) id = t.ancestry fuel p ++ [id] := by
  rw [parentOf] at h
  rw [ancestry, h]

theorem ancestry_of_no_parent {fuel : Nat} (h : t.parentOf id = none) : t.ancestry (fuel + 1) id = [] := by
  rw [parentOf] at h
  rw [ancestry, h]

theorem ancestry_congr (h : t.parentOf = t'.parentOf) (fuel : Nat) (id : NodeId) :
    t.ancestry fuel id = t'.ancestry fuel id := by
  induction fuel generalizing id with
  | zero => rfl
  | succ fuel ih =>
    cases hp : t.parentOf id with
    | none => rw [ancestry_of_no_parent hp, ancestry_of_no_parent (h ▸ hp)]
    | some p => rw [ancestry_of_parentOf hp, ancestry_of_parentOf (h ▸ hp), ih]

@[simp]
theorem leaves_clear (t : ExecutionTree) : t.clear.leaves = t.leaves := by
  rw [leaves, leavesFrom_congr t.childrenOf_clear, size_clear, childrenOf_clear, leaves]

@[simp]
theorem breadthFirst_clear (t : ExecutionTree) : t.clear.breadthFirst = t.breadthFirst := by
  rw [breadthFirst, queueFrom_congr t.childrenOf_clear, size_clear, childrenOf_clear, breadthFirst]

@[simp]
theorem pathTo_clear (t : ExecutionTree) (id : NodeId) : t.clear.pathTo id = t.pathTo id := by
  rw [pathTo, ancestry_congr t.parentOf_clear, size_clear, pathTo]

end ExecutionTree

end TestScribe

import TestScribe.Proofs.Tree.Reachable
import TestScribe.Run

/-!
# Completed trees

`complete w ids` fills the empty slots of some nodes with what the writer has for them. It does not
matter how often or in which order nodes are completed, only which of them are. The code that a run finds
at a node, `codeOf`, is the same before and after.
-/

namespace TestScribe

/-- The text of a slot, or else what the writer has for it. -/
def StepWriter.slotText (w : StepWriter) (n : Node) (slot : Slot) : String :=
  (n.code? slot).getD (w.write n slot)

namespace Node

variable {w : StepWriter} {n : Node}

/-- Fill both slots, unless the node is the constructor's. -/
def complete (w : StepWriter) (n : Node) : Node :=
  if w.model.isConstructor n.event then n
  else (n.fill .input (w.slotText n .input)).fill .oracle (w.slotText n .oracle)

@[simp]
theorem clear_complete (w : StepWriter) (n : Node) : (n.complete w).clear = n.clear := by
  rw [complete]
  split
  · rfl
  · rw [clear_fill, clear_fill]

theorem write_eq_of_clear {m : Node} (h : n.clear = m.clear) (slot : Slot) :
    w.write n slot = w.write m slot := by
  have hstep : n.toStep = m.toStep := by rw [← n.toStep_clear, h, m.toStep_clear]
  have hid : n.testCaseId = m.testCaseId := by rw [← n.testCaseId_clear, h, m.testCaseId_clear]
  cases slot <;> simp only [StepWriter.write, hstep, hid]

@[simp]
theorem toStep_complete (w : StepWriter) (n : Node) : (n.complete w).toStep = n.toStep := by
  rw [← toStep_clear, clear_complete, toStep_clear]

@[simp]
theorem id_complete (w : StepWriter) (n : Node) : (n.complete w).id = n.id := by
  rw [← id_clear, clear_complete, id_clear]

theorem code?_complete (w : StepWriter) (n : Node) (slot : Slot) :
    (n.complete w).code? slot =
      if w.model.isConstructor n.event then n.code? slot else some (w.slotText n slot) := by
  rw [complete]
  split
  · rfl
  · cases hcode : n.code? slot <;> cases slot <;> simp [code?_fill, StepWriter.slotText, hcode]

@[simp]
theorem slotText_complete (w : StepWriter) (n : Node) (slot : Slot) :
    w.slotText (n.complete w) slot = w.slotText n slot := by
  rw [StepWriter.slotText, code?_complete, write_eq_of_clear (clear_complete w n)]
  split
  · rfl
  · rfl

@[simp]
theorem complete_complete (w : StepWriter) (n : Node) : (n.complete w).complete w = n.complete w := by
  refine ext_code (by simp) fun slot => ?_
  rw [code?_complete, slotText_complete, toStep_complete, code?_complete]
  split <;> rfl

end Node

namespace ExecutionTree

variable {w : StepWriter} {t : ExecutionTree} {ids ids' : List NodeId} {id : NodeId}

def complete (w : StepWriter) (ids : List NodeId) (t : ExecutionTree) : ExecutionTree :=
  { t with nodes := t.nodes.map fun n => if n.id ∈ ids then n.complete w else n }

/-- The code of a node; the constructor has none, and neither has an unknown node. -/
def codeOf (w : StepWriter) (t : ExecutionTree) (id : NodeId) : String :=
  match t.node? id with
  | none => ""
  | some n =>
    if w.model.isConstructor n.event then "" else w.slotText n .input ++ w.slotText n .oracle

theorem node?_complete (w : StepWriter) (ids : List NodeId) (t : ExecutionTree) (i : NodeId) :
    (t.complete w ids).node? i =
      (t.node? i).map fun n => if n.id ∈ ids then n.complete w else n :=
  Array.getElem?_map

@[simp]
theorem size_complete (w : StepWriter) (ids : List NodeId) (t : ExecutionTree) :
    (t.complete w ids).size = t.size :=
  Array.size_map

@[simp]
theorem complete_nil (w : StepWriter) (t : ExecutionTree) : t.complete w [] = t := by
  refine ext_node? rfl fun i => ?_
  rw [node?_complete]
  cases t.node? i <;> rfl

theorem complete_append (w : StepWriter) (ids ids' : List NodeId) (t : ExecutionTree) :
    (t.complete w ids).complete w ids' = t.complete w (ids ++ ids') := by
  refine ext_node? rfl fun i => ?_
  rw [node?_complete, node?_complete, node?_complete, Option.map_map]
  cases t.node? i with
  | none => rfl
  | some n =>
    by_cases hid : n.id ∈ ids <;> by_cases hid' : n.id ∈ ids' <;> simp [hid, hid']

@[simp]
theorem clear_complete (w : StepWriter) (ids : List NodeId) (t : ExecutionTree) :
    (t.complete w ids).clear = t.clear := by
  refine ext_node? rfl fun i => ?_
  rw [node?_clear, node?_complete, node?_clear, Option.map_map]
  cases t.node? i with
  | none => rfl
  | some n => by_cases hid : n.id ∈ ids <;> simp [hid]

@[simp]
theorem codeOf_complete (w : StepWriter) (ids : List NodeId) (t : ExecutionTree) (id : NodeId) :
    codeOf w (t.complete w ids) id = codeOf w t id := by
  rw [codeOf, node?_complete, codeOf]
  cases t.node? id with
  | none => rfl
  | some n => by_cases hid : n.id ∈ ids <;> simp [hid]

/-- Completing is determined by which nodes of the tree it covers. -/
theorem complete_congr (h : t.WellFormed) (hids : ∀ i < t.size, i ∈ ids ↔ i ∈ ids') :
    t.complete w ids = t.complete w ids' := by
  refine ext_node? rfl fun i => ?_
  rw [node?_complete, node?_complete]
  cases hn : t.node? i with
  | none => rfl
  | some n => simp only [Option.map_some, h.id_eq i n hn, hids i (lt_size hn)]

/-- Completing one node is filling its two slots. -/
theorem complete_singleton (h : t.WellFormed) {n : Node} (hn : t.node? id = some n) :
    t.complete w [id] =
      if w.model.isConstructor n.event then t
      else (t.fill id .input (w.slotText n .input)).fill id .oracle (w.slotText n .oracle) := by
  have hnode : ∀ i, (t.complete w [id]).node? i =
      if id = i then (t.node? i).map (Node.complete w) else t.node? i := fun i => by
    rw [node?_complete]
    cases hm : t.node? i with
    | none => simp
    | some m =>
      by_cases hi : id = i
      · simp [hi, h.id_eq i m hm]
      · simp [hi, h.id_eq i m hm, Ne.symm hi]
  split
  · next hc =>
    refine ext_node? rfl fun i => ?_
    rw [hnode]
    split
    · next hi => subst hi; rw [hn, Option.map_some, Node.complete, if_pos hc]
    · rfl
  · next hc =>
    refine ext_node? rfl fun i => ?_
    rw [hnode, node?_fill, node?_fill]
    split
    · next hi => subst hi; simp [hn, Node.complete, hc]
    · rfl

theorem complete_of_unknown (h : t.WellFormed) (hn : t.node? id = none) : t.complete w [id] = t := by
  rw [← complete_nil w t, complete_append]
  refine complete_congr h fun i hi => ?_
  obtain ⟨m, hm⟩ := exists_node hi
  have hne : i ≠ id := fun he => by rw [he, hn] at hm; cases hm
  simp [hne]

/-- Completed from empty slots, the tree has the writer's code at the completed nodes and no other. -/
theorem code?_complete_clear (h : t.WellFormed) {n : Node}
    (hn : (t.clear.complete w ids).node? id = some n) (slot : Slot) :
    n.code? slot =
      if id ∈ ids ∧ w.model.isConstructor n.event = false then some (w.write n slot) else none := by
  rw [node?_complete, node?_clear, Option.map_map] at hn
  obtain ⟨m, hm, rfl⟩ := Option.map_eq_some_iff.mp hn
  rw [Function.comp_apply, Node.id_clear, h.id_eq id m hm]
  by_cases hid : id ∈ ids
  · rw [if_pos hid, Node.code?_complete, Node.code?_clear, Node.toStep_complete,
      Node.write_eq_of_clear (Node.clear_complete w m.clear), StepWriter.slotText, Node.code?_clear]
    cases hc : w.model.isConstructor m.clear.event <;> simp [hid]
  · rw [if_neg hid, Node.code?_clear, if_neg fun hif => hid hif.1]

end ExecutionTree

end TestScribe

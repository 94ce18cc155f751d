import TestScribe.Proofs.Tree.Shape

/-!
# Reachable trees

`Reachable` holds of the trees that the operations on trees make from a root. In all of them ids are
positions, a node has a parent exactly when it is not the root, parents come before their children, and
child lists agree with parents (`WellFormed`). Only `addChild` changes any of this; the other operations
write slots.
-/

namespace TestScribe.ExecutionTree

/-- The trees made from a root by adding children, by writing slots and by clearing all of them. -/
inductive Reachable : ExecutionTree → Prop
  | rooted (kind : TreeKind) (constructor : Transition) (marking : Marking) :
      Reachable (rooted kind constructor marking)
  | addChild {t t' : ExecutionTree} {parent id : NodeId} {step : Step} {testCaseId : Option String}
      (h : Reachable t) (hadd : t.addChild parent step testCaseId = .ok (id, t')) : Reachable t'
  | setCode {t t' : ExecutionTree} {id : NodeId} {slot : Slot} {code : String}
      (h : Reachable t) (hset : t.setCode id slot code = .ok t') : Reachable t'
  | codeOrFill {t t' : ExecutionTree} {id : NodeId} {slot : Slot} {code text : String}
      (h : Reachable t) (hfill : t.codeOrFill id slot code = .ok (text, t')) : Reachable t'
  | clear {t : ExecutionTree} (h : Reachable t) : Reachable t.clear

structure WellFormed (t : ExecutionTree) : Prop where
  size_pos : 0 < t.size
  id_eq : ∀ i n, t.node? i = some n → n.id = i
  /-- Child lists and parents say the same. -/
  mem_childrenOf : ∀ p c, c ∈ t.childrenOf p ↔ t.parentOf c = some p
  /-- Parents come first. -/
  parentOf_lt : ∀ c p, t.parentOf c = some p → p < c
  exists_parentOf : ∀ i, i ≠ root → i < t.size → ∃ p, t.parentOf i = some p
  sorted : ∀ p, (t.childrenOf p).Pairwise (· < ·)

variable {t t' : ExecutionTree} {parent id i p c : NodeId} {step : Step} {testCaseId : Option String}

theorem parentOf_size (t : ExecutionTree) : t.parentOf t.size = none := by
  rw [parentOf, node?_size]; rfl

theorem childrenOf_size (t : ExecutionTree) : t.childrenOf t.size = [] := by
  rw [childrenOf_eq, node?_size]; rfl

theorem lt_size_of_parentOf (h : t.parentOf c = some p) : c < t.size := by
  obtain ⟨n, hn, -⟩ := Option.bind_eq_some_iff.mp h
  exact lt_size hn

/-! ### Adding a child -/

/-- The new node comes last, and nothing but the children of its parent changes. -/
theorem addChild_spec (h : t.addChild parent step testCaseId = .ok (id, t')) :
    ∃ p, t.node? parent = some p ∧ id = t.size ∧ t'.kind = t.kind ∧ t'.size = t.size + 1 ∧
      ∀ i, t'.node? i =
        if i = t.size then some (t.newChild p parent step testCaseId)
        else if parent = i then (t.node? i).map fun n => { n with children := n.children ++ [t.size] }
        else t.node? i := by
  rw [addChild] at h
  split at h
  · cases h
  · next p hp =>
    cases h
    refine ⟨p, hp, rfl, rfl, ?_, fun i => ?_⟩
    · rw [size, Array.size_push, Array.size_modify, size]
    · rw [node?, Array.getElem?_push, Array.size_modify, Array.getElem?_modify]
      rfl

theorem childrenOf_addChild (h : t.addChild parent step testCaseId = .ok (id, t')) (i : NodeId) :
    t'.childrenOf i = if parent = i then t.childrenOf i ++ [t.size] else t.childrenOf i := by
  obtain ⟨p, hp, -, -, -, hnode⟩ := addChild_spec h
  have hlt := lt_size hp
  rw [childrenOf_eq, hnode]
  split
  · next hi =>
    rw [hi, if_neg (Nat.ne_of_lt hlt), childrenOf_size]
    rfl
  · split
    · next hi => subst hi; rw [childrenOf_eq, hp]; rfl
    · rw [childrenOf_eq]

theorem parentOf_addChild (h : t.addChild parent step testCaseId = .ok (id, t')) (i : NodeId) :
    t'.parentOf i = if i = t.size then some parent else t.parentOf i := by
  obtain ⟨p, hp, -, -, -, hnode⟩ := addChild_spec h
  rw [parentOf, hnode]
  split
  · rfl
  · split
    · rw [parentOf]; cases t.node? i <;> rfl
    · rfl

/-! ### Well-formedness -/

namespace WellFormed

theorem rooted (kind : TreeKind) (constructor : Transition) (marking : Marking) :
    (ExecutionTree.rooted kind constructor marking).WellFormed := by
  have hnode : ∀ i, i ≠ 0 → (ExecutionTree.rooted kind constructor marking).node? i = none := fun i hi =>
    Array.getElem?_eq_none (Nat.pos_of_ne_zero hi)
  have hparent : ∀ i, (ExecutionTree.rooted kind constructor marking).parentOf i = none := fun i => by
    by_cases hi : i = 0
    · subst hi; rfl
    · rw [parentOf, hnode i hi]; rfl
  have hchildren : ∀ i, (ExecutionTree.rooted kind constructor marking).childrenOf i = [] := fun i => by
    by_cases hi : i = 0
    · subst hi; rfl
    · rw [childrenOf_eq, hnode i hi]; rfl
  refine ⟨Nat.zero_lt_one, fun i n hn => ?_, fun p c => ?_, fun c p hc => ?_, fun i hi hlt => ?_, fun p => ?_⟩
  · by_cases hi : i = 0
    · subst hi; cases hn; rfl
    · rw [hnode i hi] at hn; cases hn
  · rw [hparent, hchildren]; simp
  · rw [hparent] at hc; cases hc
  · exact absurd (Nat.lt_one_iff.mp hlt) hi
  · rw [hchildren]; exact .nil

/-- Well-formedness does not see the slots. -/
theorem of_clear_eq (h : t.WellFormed) (hclear : t'.clear = t.clear) : t'.WellFormed := by
  have hsize : t'.size = t.size := eq_of_clear_eq size_clear hclear
  have hparent : t'.parentOf = t.parentOf := eq_of_clear_eq parentOf_clear hclear
  have hchildren : t'.childrenOf = t.childrenOf := eq_of_clear_eq childrenOf_clear hclear
  refine ⟨hsize ▸ h.size_pos, fun i n hn => ?_, ?_, ?_, ?_, ?_⟩
  · obtain ⟨m, hm, he⟩ : ∃ m, t.node? i = some m ∧ m.clear = n.clear := by
      rw [← Option.map_eq_some_iff, ← node?_clear, ← hclear, node?_clear, hn]; rfl
    rw [← n.id_clear, ← he, m.id_clear, h.id_eq i m hm]
  · rw [hchildren, hparent]; exact h.mem_childrenOf
  · rw [hparent]; exact h.parentOf_lt
  · rw [hsize, hparent]; exact h.exists_parentOf
  · rw [hchildren]; exact h.sorted

theorem clear (h : t.WellFormed) : t.clear.WellFormed :=
  h.of_clear_eq t.clear_clear

theorem lt_of_mem (h : t.WellFormed) (hc : c ∈ t.childrenOf p) : p < c ∧ c < t.size :=
  have hparent := (h.mem_childrenOf p c).mp hc
  ⟨h.parentOf_lt c p hparent, lt_size_of_parentOf hparent⟩

theorem ne_root_of_mem (h : t.WellFormed) (hc : c ∈ t.childrenOf p) : c ≠ root ∧ c < t.size :=
  have hlt := h.lt_of_mem hc
  ⟨Nat.ne_of_gt (Nat.lt_of_le_of_lt (Nat.zero_le p) hlt.1), hlt.2⟩

theorem parentOf_eq_none_iff (h : t.WellFormed) (hi : i < t.size) : t.parentOf i = none ↔ i = root := by
  constructor
  · intro hnone
    rcases Decidable.em (i = root) with hroot | hne
    · exact hroot
    · obtain ⟨p, hp⟩ := h.exists_parentOf i hne hi
      rw [hnone] at hp
      cases hp
  · rintro rfl
    cases hp : t.parentOf root with
    | none => rfl
    | some p => exact absurd (h.parentOf_lt root p hp) (Nat.not_lt_zero p)

theorem addChild (h : t.WellFormed) (hadd : t.addChild parent step testCaseId = .ok (id, t')) :
    t'.WellFormed := by
  obtain ⟨n, hn, -, -, hsize, hnode⟩ := addChild_spec hadd
  have hchildren := childrenOf_addChild hadd
  have hparent := parentOf_addChild hadd
  have hlt := lt_size hn
  refine ⟨by omega, fun i m hm => ?_, fun p c => ?_, fun c p hc => ?_, fun i hi hlt' => ?_, fun p => ?_⟩
  · rw [hnode] at hm
    split at hm
    · next hi => cases hm; exact hi.symm
    · split at hm
      · obtain ⟨m', hm', rfl⟩ := Option.map_eq_some_iff.mp hm
        exact h.id_eq i m' hm'
      · exact h.id_eq i m hm
  · rw [hchildren, hparent]
    by_cases hp : parent = p <;> by_cases hc : c = t.size
    · simp [hp, hc]
    · simp [hp, hc, h.mem_childrenOf]
    · rw [if_neg hp, if_pos hc, hc, h.mem_childrenOf, parentOf_size]
      simp [hp]
    · rw [if_neg hp, if_neg hc, h.mem_childrenOf]
  · rw [hparent] at hc
    split at hc
    · next he => cases hc; exact he ▸ hlt
    · exact h.parentOf_lt c p hc
  · rw [hparent]
    split
    · exact ⟨parent, rfl⟩
    · next hne =>
      rw [hsize] at hlt'
      exact h.exists_parentOf i hi (Nat.lt_of_le_of_ne (Nat.le_of_lt_succ hlt') hne)
  · rw [hchildren]
    split
    · refine List.pairwise_append.mpr ⟨h.sorted p, List.pairwise_singleton _ _, fun a ha b hb => ?_⟩
      rw [List.mem_singleton.mp hb]
      exact (h.lt_of_mem ha).2
    · exact h.sorted p

end WellFormed

theorem Reachable.wellFormed (h : t.Reachable) : t.WellFormed := by
  induction h with
  | rooted kind constructor marking => exact .rooted kind constructor marking
  | addChild h hadd ih => exact ih.addChild hadd
  | setCode h hset ih => exact ih.of_clear_eq (clear_setCode hset)
  | codeOrFill h hfill ih => exact ih.of_clear_eq (clear_codeOrFill hfill)
  | clear h ih => exact ih.clear

/-- The tree with one more step; under an unknown node, the tree itself. -/
def withStep (t : ExecutionTree) (parent : NodeId) (step : Step) : ExecutionTree :=
  match t.addChild parent step none with
  | .ok (_, t') => t'
  | .error _ => t

theorem Reachable.withStep (h : t.Reachable) (parent : NodeId) (step : Step) :
    (t.withStep parent step).Reachable := by
  rw [ExecutionTree.withStep]
  split
  · next hadd => exact h.addChild hadd
  · exact h

end TestScribe.ExecutionTree

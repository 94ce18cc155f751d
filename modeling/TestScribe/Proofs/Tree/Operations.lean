import TestScribe.Proofs.Tree.Reachable

/-!
# Operations on trees

`after` is the tree that an operation leaves, and `afterAll` the one that a sequence of them leaves; an
operation that fails leaves the tree as it was. Whatever the operations were, the two directions of the
links agree (`links_afterAll`).
-/

namespace TestScribe.ExecutionTree

/-- A call on a tree: it adds a child, writes a slot, reads a slot that it fills first if it is empty, or
clears all slots. -/
inductive Operation
  | addChild (parent : NodeId) (step : Step) (testCaseId : Option String)
  | setCode (id : NodeId) (slot : Slot) (code : String)
  | codeOrFill (id : NodeId) (slot : Slot) (code : String)
  | clear
deriving DecidableEq

/-- The tree that an operation leaves. -/
def after (t : ExecutionTree) : Operation → ExecutionTree
  | .addChild parent step testCaseId =>
    match t.addChild parent step testCaseId with
    | .ok (_, t') => t'
    | .error _ => t
  | .setCode id slot code =>
    match t.setCode id slot code with
    | .ok t' => t'
    | .error _ => t
  | .codeOrFill id slot code =>
    match t.codeOrFill id slot code with
    | .ok (_, t') => t'
    | .error _ => t
  | .clear => t.clear

def afterAll (t : ExecutionTree) (operations : List Operation) : ExecutionTree :=
  operations.foldl after t

variable {t : ExecutionTree} {parent i : NodeId}

theorem Reachable.after (h : t.Reachable) (operation : Operation) : (t.after operation).Reachable := by
  cases operation with
  | addChild parent step testCaseId =>
    rw [ExecutionTree.after]
    split
    · next hadd => exact h.addChild hadd
    · exact h
  | setCode id slot code =>
    rw [ExecutionTree.after]
    split
    · next hset => exact h.setCode hset
    · exact h
  | codeOrFill id slot code =>
    rw [ExecutionTree.after]
    split
    · next hfill => exact h.codeOrFill hfill
    · exact h
  | clear => exact h.clear

theorem Reachable.afterAll (h : t.Reachable) (operations : List Operation) :
    (t.afterAll operations).Reachable := by
  induction operations generalizing t with
  | nil => exact h
  | cons operation operations ih => exact ih (h.after operation)

/-- An operation adds a child, or all that it changes is in the slots. -/
theorem after_cases (t : ExecutionTree) (operation : Operation) :
    (∃ parent step testCaseId id, operation = .addChild parent step testCaseId ∧
      t.addChild parent step testCaseId = .ok (id, t.after operation)) ∨
    (t.after operation).clear = t.clear := by
  cases operation with
  | addChild parent step testCaseId =>
    rw [ExecutionTree.after]
    split
    · next id t' hadd => exact .inl ⟨parent, step, testCaseId, id, rfl, hadd⟩
    · exact .inr rfl
  | setCode id slot code =>
    rw [ExecutionTree.after]
    split
    · next hset => exact .inr (clear_setCode hset)
    · exact .inr rfl
  | codeOrFill id slot code =>
    rw [ExecutionTree.after]
    split
    · next hfill => exact .inr (clear_codeOrFill hfill)
    · exact .inr rfl
  | clear => exact .inr t.clear_clear

theorem addChild_of_unknown (h : t.size ≤ parent) (step : Step) (testCaseId : Option String) :
    t.addChild parent step testCaseId = .error (.unknownNode parent) := by
  have hnone : t.node? parent = none := Array.getElem?_eq_none h
  rw [addChild, hnone]

theorem exists_addChild (h : parent < t.size) (step : Step) (testCaseId : Option String) :
    ∃ t', t.addChild parent step testCaseId = .ok (t.size, t') := by
  obtain ⟨p, hp⟩ := exists_node h
  rw [addChild, hp]
  exact ⟨_, rfl⟩

/-- Ids are positions, the root alone has no parent, parents come first, and a node is in the child list
of its parent and in no other, once. Adding under an unknown node is refused and changes nothing; adding
under a known one puts the new node last and at the end of its parent's children, and all else stays. -/
theorem links_afterAll (kind : TreeKind) (constructor : Transition) (marking : Marking)
    (operations : List Operation) :
    let t := (rooted kind constructor marking).afterAll operations
    (∀ i n, t.node? i = some n → n.id = i) ∧
      root < t.size ∧ (∀ i, i < t.size → (t.parentOf i = none ↔ i = root)) ∧
      (∀ i p, t.parentOf i = some p → p < i) ∧
      (∀ i j, j ∈ t.childrenOf i ↔ t.parentOf j = some i) ∧
      (∀ i, (t.childrenOf i).Pairwise (· < ·) ∧ (t.childrenOf i).Nodup) ∧
      ∀ parent step testCaseId,
        (t.size ≤ parent → t.addChild parent step testCaseId = .error (.unknownNode parent) ∧
          t.after (.addChild parent step testCaseId) = t) ∧
        (parent < t.size → ∃ p t', t.node? parent = some p ∧
          t.addChild parent step testCaseId = .ok (t.size, t') ∧
          t.after (.addChild parent step testCaseId) = t' ∧ t'.kind = t.kind ∧
          t'.size = t.size + 1 ∧ t'.node? t.size = some (t.newChild p parent step testCaseId) ∧
          ∀ i, i < t.size → t'.node? i =
            if i = parent then some { p with children := p.children ++ [t.size] } else t.node? i) := by
  intro t
  have h : t.WellFormed := ((Reachable.rooted kind constructor marking).afterAll operations).wellFormed
  refine ⟨h.id_eq, h.size_pos, fun i hi => h.parentOf_eq_none_iff hi, h.parentOf_lt, h.mem_childrenOf,
    fun i => ?_, fun parent step testCaseId => ⟨fun hle => ?_, fun hlt => ?_⟩⟩
  · exact ⟨h.sorted i, (h.sorted i).imp fun hlt => Nat.ne_of_lt hlt⟩
  · have hadd := addChild_of_unknown hle step testCaseId
    exact ⟨hadd, by rw [after, hadd]⟩
  · obtain ⟨t', hadd⟩ := exists_addChild hlt step testCaseId
    obtain ⟨p, hp, -, hkind, hsize, hnode⟩ := addChild_spec hadd
    refine ⟨p, t', hp, hadd, by rw [after, hadd], hkind, hsize, ?_, fun i hi => ?_⟩
    · rw [hnode, if_pos rfl]
    · rw [hnode, if_neg (Nat.ne_of_lt hi)]
      by_cases hip : i = parent
      · subst hip
        rw [if_pos rfl, if_pos rfl, hp, Option.map_some]
      · rw [if_neg (Ne.symm hip), if_neg hip]

/-- Adding under an unknown node in between leaves no gap in the ids. -/
theorem links_afterAll_unknown_parent :
    let login := Step.firing (.named "login")
    let t := (rooted .standard (.constructor "new") ∅).afterAll
      [.addChild 0 login none, .addChild 5 login none, .setCode 1 .input "login();",
        .addChild 1 login none]
    (t.parentOf 2 = some 1 ∧ 1 < 2 ∧ 2 ∈ t.childrenOf 1) ∧
      (t.size ≤ 7 ∧ t.addChild 7 login none = .error (.unknownNode 7)) ∧
      (1 < t.size ∧ ∃ t', t.addChild 1 login none = .ok (t.size, t') ∧ t'.size = t.size + 1) := by
  intro login t
  have hparent : t.parentOf 2 = some 1 := by decide
  have hunknown : t.size ≤ 7 := by decide
  have hknown : 1 < t.size := by decide
  obtain ⟨-, -, -, hlt, hlinks, -, hadd⟩ := links_afterAll .standard (.constructor "new") ∅
    [.addChild 0 login none, .addChild 5 login none, .setCode 1 .input "login();",
      .addChild 1 login none]
  obtain ⟨herror, -⟩ := (hadd 7 login none).1 hunknown
  obtain ⟨_, t', -, hok, -, -, hsize, -⟩ := (hadd 1 login none).2 hknown
  exact ⟨⟨hparent, hlt 2 1 hparent, (hlinks 1 2).mpr hparent⟩, ⟨hunknown, herror⟩, hknown, t', hok, hsize⟩

end TestScribe.ExecutionTree

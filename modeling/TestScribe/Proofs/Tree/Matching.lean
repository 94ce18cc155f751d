import TestScribe.Proofs.Tree.Operations

/-!
# Trees with nodes in the same places

Two trees have the same shape when their nodes stand in the same places with the same test-case ids, whatever
the steps (`SameShape`); such trees have the same links and the same walks. They are matched by a relation when
it relates the steps of each place but the root (`MatchedBy`), which is so when they grow from their roots by
related steps under the same nodes (`MatchedBy.addChild`).
-/

namespace TestScribe

/-- The nodes stand in the same place and have the same test-case id; their steps may differ. -/
structure Node.SamePlace (n n' : Node) : Prop where
  id : n.id = n'.id
  testCaseId : n.testCaseId = n'.testCaseId
  parent : n.parent = n'.parent
  children : n.children = n'.children

theorem Node.SamePlace.childTestCaseId {n n' : Node} (h : n.SamePlace n') :
    n.childTestCaseId = n'.childTestCaseId := by
  funext position
  rw [Node.childTestCaseId, Node.childTestCaseId, Node.isRoot, Node.isRoot, h.parent, h.testCaseId]

namespace ExecutionTree

structure SameShape (t t' : ExecutionTree) : Prop where
  kind : t.kind = t'.kind
  size : t.size = t'.size
  node : ∀ {i n n'}, t.node? i = some n → t'.node? i = some n' → n.SamePlace n'

/-- The trees have the same shape, and the steps in the same place are related, unless it is the root. -/
structure MatchedBy (R : Step → Step → Prop) (t t' : ExecutionTree) : Prop where
  shape : t.SameShape t'
  step : ∀ {i n n'}, i ≠ root → t.node? i = some n → t'.node? i = some n' → R n.toStep n'.toStep

variable {t t' u u' : ExecutionTree} {i id id' parent : NodeId} {n : Node} {s s' : Step}
  {testCaseId : Option String} {R : Step → Step → Prop}

namespace SameShape

theorem exists_node (h : t.SameShape t') (hn : t.node? i = some n) : ∃ n', t'.node? i = some n' :=
  ExecutionTree.exists_node (h.size ▸ lt_size hn)

/-- What is read off the place of a node is the same in both trees. -/
theorem map_node? {α : Type} {f f' : Node → α} (h : t.SameShape t') (i : NodeId)
    (hf : ∀ {n n'}, t.node? i = some n → t'.node? i = some n' → f n = f' n') :
    (t.node? i).map f = (t'.node? i).map f' := by
  cases hn : t.node? i with
  | none =>
    cases hn' : t'.node? i with
    | none => rfl
    | some n' =>
      obtain ⟨n, hsome⟩ := ExecutionTree.exists_node (h.size ▸ lt_size hn')
      rw [hn] at hsome
      cases hsome
  | some n =>
    obtain ⟨n', hn'⟩ := h.exists_node hn
    rw [hn', Option.map_some, Option.map_some, hf hn hn']

theorem parentOf (h : t.SameShape t') : t.parentOf = t'.parentOf := by
  funext i
  have hparent := h.map_node? (f := Node.parent) i fun hn hn' => (h.node hn hn').parent
  have hbind := congrArg (fun parent => parent.bind id) hparent
  rwa [Option.bind_map, Option.bind_map] at hbind

theorem childrenOf (h : t.SameShape t') : t.childrenOf = t'.childrenOf := by
  funext i
  have hchildren := h.map_node? (f := Node.children) i fun hn hn' => (h.node hn hn').children
  rw [childrenOf_eq, childrenOf_eq, hchildren]

theorem wellFormed (h : t.SameShape t') (hw : t.WellFormed) : t'.WellFormed := by
  refine ⟨h.size ▸ hw.size_pos, fun i n' hn' => ?_, ?_, ?_, ?_, ?_⟩
  · obtain ⟨n, hn⟩ := ExecutionTree.exists_node (h.size ▸ lt_size hn')
    rw [← (h.node hn hn').id, hw.id_eq i n hn]
  · rw [← h.childrenOf, ← h.parentOf]; exact hw.mem_childrenOf
  · rw [← h.parentOf]; exact hw.parentOf_lt
  · rw [← h.size, ← h.parentOf]; exact hw.exists_parentOf
  · rw [← h.childrenOf]; exact hw.sorted

/-! ### Walks -/

theorem leaves (h : t.SameShape t') : t.leaves = t'.leaves := by
  rw [ExecutionTree.leaves, leavesFrom_congr h.childrenOf, h.size, h.childrenOf, ExecutionTree.leaves]

theorem breadthFirst (h : t.SameShape t') : t.breadthFirst = t'.breadthFirst := by
  rw [ExecutionTree.breadthFirst, queueFrom_congr h.childrenOf, h.size, h.childrenOf,
    ExecutionTree.breadthFirst]

theorem ancestry (h : t.SameShape t') : t.ancestry t.size = t'.ancestry t'.size := by
  funext i
  rw [h.size, ancestry_congr h.parentOf]

end SameShape

/-! ### Growing side by side -/

/-- A node of the grown trees is in the same place in both. It is the new one, or it was there before with the
step it has. -/
theorem SameShape.nodes_addChild (h : t.SameShape t')
    (hadd : t.addChild parent s testCaseId = .ok (id, u))
    (hadd' : t'.addChild parent s' testCaseId = .ok (id', u')) {i : NodeId} {n n' : Node}
    (hn : u.node? i = some n) (hn' : u'.node? i = some n') :
    n.SamePlace n' ∧ (n.toStep = s ∧ n'.toStep = s' ∨
      ∃ m m', t.node? i = some m ∧ t'.node? i = some m' ∧ n.toStep = m.toStep ∧ n'.toStep = m'.toStep) := by
  obtain ⟨p, hp, -, -, -, hnode⟩ := addChild_spec hadd
  obtain ⟨p', hp', -, -, -, hnode'⟩ := addChild_spec hadd'
  rw [hnode] at hn
  rw [hnode', ← h.size] at hn'
  split at hn
  · next hi =>
    rw [if_pos hi] at hn'
    cases hn
    cases hn'
    have hplace := h.node hp hp'
    refine ⟨⟨h.size, ?_, rfl, rfl⟩, .inl ⟨rfl, rfl⟩⟩
    rw [newChild, newChild, hplace.childTestCaseId, hplace.children]
  · next hi =>
    rw [if_neg hi] at hn'
    split at hn
    · next hparent =>
      -- The parent has one child more, and that is the same one in both trees.
      rw [if_pos hparent] at hn'
      obtain ⟨m, hm, rfl⟩ := Option.map_eq_some_iff.mp hn
      obtain ⟨m', hm', rfl⟩ := Option.map_eq_some_iff.mp hn'
      have hsame := h.node hm hm'
      exact ⟨⟨hsame.id, hsame.testCaseId, hsame.parent, congrArg (· ++ [t.size]) hsame.children⟩,
        .inr ⟨m, m', hm, hm', rfl, rfl⟩⟩
    · next hparent =>
      rw [if_neg hparent] at hn'
      exact ⟨h.node hn hn', .inr ⟨n, n', hn, hn', rfl, rfl⟩⟩

namespace MatchedBy

theorem rooted (R : Step → Step → Prop) (kind : TreeKind) (constructor constructor' : Transition)
    (marking marking' : Marking) :
    MatchedBy R (.rooted kind constructor marking) (.rooted kind constructor' marking') := by
  refine ⟨⟨rfl, rfl, fun {i n n'} hn hn' => ?_⟩, fun {i n n'} hi hn _ => ?_⟩
  · obtain rfl : i = 0 := Nat.lt_one_iff.mp (lt_size hn)
    cases hn
    cases hn'
    exact ⟨rfl, rfl, rfl, rfl⟩
  · exact absurd (Nat.lt_one_iff.mp (lt_size hn)) hi

theorem addChild (h : t.MatchedBy R t') (hs : R s s')
    (hadd : t.addChild parent s testCaseId = .ok (id, u))
    (hadd' : t'.addChild parent s' testCaseId = .ok (id', u')) : u.MatchedBy R u' := by
  obtain ⟨p, hp, -, hkind, hsize, -⟩ := addChild_spec hadd
  obtain ⟨p', hp', -, hkind', hsize', -⟩ := addChild_spec hadd'
  refine ⟨⟨?_, ?_, fun hn hn' => (h.shape.nodes_addChild hadd hadd' hn hn').1⟩, fun hi hn hn' => ?_⟩
  · rw [hkind, hkind', h.shape.kind]
  · rw [hsize, hsize', h.shape.size]
  · rcases (h.shape.nodes_addChild hadd hadd' hn hn').2 with ⟨hstep, hstep'⟩ | ⟨m, m', hm, hm', hstep, hstep'⟩
    · rw [hstep, hstep']
      exact hs
    · rw [hstep, hstep']
      exact h.step hi hm hm'

theorem withStep (h : t.MatchedBy R t') (hs : R s s') (parent : NodeId) :
    (t.withStep parent s).MatchedBy R (t'.withStep parent s') := by
  by_cases hparent : parent < t.size
  · obtain ⟨u, hadd⟩ := exists_addChild hparent s none
    obtain ⟨u', hadd'⟩ := exists_addChild (h.shape.size ▸ hparent) s' none
    rw [ExecutionTree.withStep, ExecutionTree.withStep, hadd, hadd']
    exact h.addChild hs hadd hadd'
  · have hunknown := Nat.le_of_not_lt hparent
    rw [ExecutionTree.withStep, ExecutionTree.withStep, addChild_of_unknown hunknown,
      addChild_of_unknown (h.shape.size ▸ hunknown)]
    exact h

end MatchedBy

end ExecutionTree

end TestScribe

import TestScribe.Proofs.Run.Completion
import TestScribe.Proofs.Tree.Walk

/-!
# The nodes a run visits

Every part of a run comes to some nodes one after another, polls before each and leaves it completed.
`Run.Visits` says which nodes these are and what the part gives when no poll stops it. As the code of a
node does not depend on what was completed before, the parts compose (`Visits.bind`), and a part can be
run from any tree that earlier parts have completed.
-/

namespace TestScribe

open ExecutionTree

namespace Signal

/-- A number of polls goes by without a request. -/
def allows (s : Signal) (polls : Nat) : Bool :=
  match s with
  | .quiet => true
  | .cancelAfter n => polls ≤ n

def after (s : Signal) (polls : Nat) : Signal :=
  match s with
  | .quiet => .quiet
  | .cancelAfter n => .cancelAfter (n - polls)

/-- The nodes of a list that are reached when a poll comes before each. -/
def reached (s : Signal) (ids : List NodeId) : List NodeId :=
  match s with
  | .quiet => ids
  | .cancelAfter n => ids.take n

variable {s : Signal} {m n : Nat} {ids ids' : List NodeId}

@[simp]
theorem allows_zero (s : Signal) : s.allows 0 = true := by
  cases s <;> simp [allows]

@[simp]
theorem after_zero (s : Signal) : s.after 0 = s := by
  cases s <;> simp [after]

@[simp]
theorem reached_nil (s : Signal) : s.reached [] = [] := by
  cases s <;> simp [reached]

theorem reached_singleton (s : Signal) (id : NodeId) :
    s.reached [id] = if s.allows 1 then [id] else [] := by
  cases s with
  | quiet => rfl
  | cancelAfter n => cases n <;> simp [reached, allows]

theorem allows_add (s : Signal) (m n : Nat) : s.allows (m + n) = (s.allows m && (s.after m).allows n) := by
  cases s with
  | quiet => rfl
  | cancelAfter k =>
    rw [Bool.eq_iff_iff, Bool.and_eq_true]
    simp only [allows, after, decide_eq_true_iff]
    omega

theorem after_add (s : Signal) (m n : Nat) : s.after (m + n) = (s.after m).after n := by
  cases s with
  | quiet => rfl
  | cancelAfter k => rw [after, after, after, Nat.sub_add_eq]

theorem reached_append (s : Signal) (ids ids' : List NodeId) :
    s.reached (ids ++ ids') = s.reached ids ++ (s.after ids.length).reached ids' := by
  cases s with
  | quiet => rfl
  | cancelAfter k => exact List.take_append

/-- Once a request is made it stays. -/
theorem after_of_not_allows (h : s.allows m = false) : s.after m = .cancelAfter 0 := by
  cases s with
  | quiet => cases h
  | cancelAfter k =>
    rw [allows, decide_eq_false_iff_not] at h
    rw [after, Nat.sub_eq_zero_of_le (by omega)]

theorem reached_of_allows (h : s.allows ids.length = true) : s.reached ids = ids := by
  cases s with
  | quiet => rfl
  | cancelAfter k => exact List.take_of_length_le (by simpa [allows] using h)

theorem mem_of_mem_reached {id : NodeId} (h : id ∈ s.reached ids) : id ∈ ids := by
  cases s with
  | quiet => exact h
  | cancelAfter k => exact List.mem_of_mem_take h

theorem isCancelled_eq (s : Signal) : s.isCancelled = !s.allows 1 := by
  cases s with
  | quiet => rfl
  | cancelAfter k => cases k <;> rfl

theorem next_eq (s : Signal) : s.next = s.after 1 := by
  cases s <;> rfl

theorem allows_iff (s : Signal) (n : Nat) : s.allows n = true ↔ ∀ k < n, (s.after k).isCancelled = false := by
  cases s with
  | quiet => simp [allows, after, isCancelled]
  | cancelAfter m =>
    simp only [allows, after, isCancelled, decide_eq_true_iff, beq_eq_false_iff_ne]
    constructor
    · intro hn k hk
      omega
    · intro h
      rcases Nat.lt_or_ge m n with hm | hm
      · exact absurd (Nat.sub_self m) (h m hm)
      · exact hm

end Signal

namespace Run

variable {α β : Type} {w : StepWriter} {t : ExecutionTree} {ids ids' : List NodeId} {a : α} {b : β}
  {r : Run α} {f : α → Run β} {s s' : RunState}

theorem bind_ok (h : r.run.run s = (.ok a, s')) : (r >>= f).run.run s = (f a).run.run s' := by
  show (match r.run.run s with | (e, s') => (ExceptT.bindCont f e).run s') = _
  rw [h]; rfl

theorem bind_error {e : RunError} (h : r.run.run s = (.error e, s')) :
    (r >>= f).run.run s = (.error e, s') := by
  show (match r.run.run s with | (e, s') => (ExceptT.bindCont f e).run s') = _
  rw [h]; rfl

theorem get_run (f : RunState → Run α) (s : RunState) : (get >>= f).run.run s = (f s).run.run s :=
  rfl

/-- From the tree, however it was completed before, the run comes to these nodes, and if no poll stops it
on the way it gives `a`. -/
def Visits (w : StepWriter) (t : ExecutionTree) (r : Run α) (ids : List NodeId) (a : α) : Prop :=
  ∀ done signal phases, r.run.run ⟨t.complete w done, signal, phases⟩ =
    (if signal.allows ids.length then .ok a else .error .cancelled,
      ⟨t.complete w (done ++ signal.reached ids), signal.after ids.length, phases⟩)

theorem visits_pure (a : α) : Visits w t (pure a) [] a := by
  intro done signal phases
  rw [List.length_nil, Signal.allows_zero, Signal.after_zero, Signal.reached_nil, List.append_nil]
  rfl

theorem Visits.bind (hr : Visits w t r ids a) (hf : Visits w t (f a) ids' b) :
    Visits w t (r >>= f) (ids ++ ids') b := by
  intro done signal phases
  have hrun := hr done signal phases
  rw [List.length_append, Signal.allows_add, Signal.after_add, Signal.reached_append]
  cases hallows : signal.allows ids.length with
  | true =>
    rw [hallows, if_pos rfl] at hrun
    rw [bind_ok hrun, hf, Bool.true_and, List.append_assoc]
  | false =>
    rw [hallows, if_neg Bool.false_ne_true] at hrun
    -- The first part was stopped, so the second reaches no node.
    rw [bind_error hrun, Bool.false_and, if_neg Bool.false_ne_true, Signal.after_of_not_allows hallows]
    simp [Signal.reached, Signal.after]

theorem Visits.map (hr : Visits w t r ids a) (f : α → β) :
    Visits w t (do let a ← r; return f a) ids (f a) := by
  have hbind := hr.bind (f := fun a => pure (f a)) (visits_pure (f a))
  rwa [List.append_nil] at hbind

/-- A look at the tree that does not depend on what was completed. -/
theorem visits_get {f : RunState → Run α}
    (h : ∀ done signal phases, f ⟨t.complete w done, signal, phases⟩ = r) (hr : Visits w t r ids a) :
    Visits w t (get >>= f) ids a := by
  intro done signal phases
  rw [get_run, h]
  exact hr done signal phases

theorem visits_ofTree {e : Except TreeError α} (h : e = .ok a) : Visits w t (ofTree e) [] a := by
  rw [h]
  exact visits_pure a

/-! ### Nodes -/

theorem poll_run (s : RunState) :
    poll.run.run s = (if s.signal.allows 1 then .ok () else .error .cancelled,
      { s with signal := s.signal.after 1 }) := by
  show (if s.signal.isCancelled = true then throw .cancelled else pure () : Run Unit).run.run
    { s with signal := s.signal.next } = _
  rw [Signal.isCancelled_eq, Signal.next_eq]
  cases s.signal.allows 1 <;> rfl

theorem nodeCode_run (h : t.WellFormed) (id : NodeId) (signal : Signal) (phases : List Phase) :
    (nodeCode w id).run.run ⟨t, signal, phases⟩ =
      (.ok (t.codeOf w id), ⟨t.complete w [id], signal, phases⟩) := by
  rw [nodeCode, get_run, ExecutionTree.codeOf]
  cases hn : t.node? id with
  | none => rw [complete_of_unknown h hn]; rfl
  | some n =>
    rw [complete_singleton h hn]
    cases hc : w.model.isConstructor n.event with
    | true => simp only [hc]; rfl
    | false => simp only [hc, ← h.id_eq id n hn]; rfl

theorem visits_node (h : t.WellFormed) (id : NodeId) :
    Visits w t (do poll; nodeCode w id) [id] (t.codeOf w id) := by
  intro done signal phases
  have hpoll := poll_run ⟨t.complete w done, signal, phases⟩
  rw [List.length_singleton, Signal.reached_singleton]
  cases hallows : signal.allows 1 with
  | true =>
    rw [hallows, if_pos rfl] at hpoll
    rw [bind_ok hpoll, nodeCode_run (h.of_clear_eq (clear_complete w done t)), codeOf_complete,
      complete_append]
    rfl
  | false =>
    rw [hallows, if_neg Bool.false_ne_true] at hpoll
    rw [bind_error hpoll, if_neg Bool.false_ne_true, if_neg Bool.false_ne_true, List.append_nil]

theorem visits_nodes (h : t.WellFormed) (ids : List NodeId) :
    Visits w t (nodesCode w ids) ids (String.join (ids.map (t.codeOf w))) := by
  induction ids with
  | nil => exact visits_pure ""
  | cons id ids ih =>
    have hnodes := (visits_node h id).bind (f := fun code => do return code ++ (← nodesCode w ids))
      (ih.map fun more => t.codeOf w id ++ more)
    rw [bind_assoc] at hnodes
    rw [List.map_cons, String.join_cons]
    exact hnodes

theorem visits_fillTree (h : t.WellFormed) : Visits w t (fillTree w) t.breadthFirst () := by
  refine visits_get (fun done signal phases => ?_) ((visits_nodes h t.breadthFirst).map fun _ => ())
  show (nodesCode w (t.complete w done).breadthFirst >>= fun _ => pure ()) = _
  rw [eq_of_clear_eq breadthFirst_clear (clear_complete w done t)]

end Run

/-! ### Tests -/

namespace ExecutionTree

variable {w : StepWriter} {t : ExecutionTree} {leaf : NodeId}

def bodyOf (w : StepWriter) (t : ExecutionTree) (path : List NodeId) : String :=
  w.startTag ((path.filterMap t.node?).map fun n => n.marking) ++ String.join (path.map (t.codeOf w))

def testCase (w : StepWriter) (t : ExecutionTree) (number : Nat) (leaf : NodeId) : TestCase :=
  ⟨(w.options.testId t number leaf).toOption.getD "", t.bodyOf w (t.ancestry t.size leaf)⟩

/-- The tests that end at some leaves, the first of them with the given number. -/
def testCases (w : StepWriter) (t : ExecutionTree) (number : Nat) (leaves : List NodeId) : List TestCase :=
  leaves.mapIdx fun k leaf => t.testCase w (number + k) leaf

theorem testCases_cons (w : StepWriter) (t : ExecutionTree) (number : Nat) (leaf : NodeId)
    (leaves : List NodeId) :
    t.testCases w number (leaf :: leaves) =
      t.testCase w number leaf :: t.testCases w (number + 1) leaves := by
  rw [testCases, List.mapIdx_cons, testCases]
  simp only [Nat.add_zero, Nat.add_assoc, Nat.add_comm 1]

theorem testId_ok (o : Options) (number : Nat) (h : leaf < t.size) :
    ∃ id, o.testId t number leaf = .ok id := by
  obtain ⟨n, hn⟩ := exists_node h
  rw [Options.testId]
  split
  · exact ⟨_, by rw [hn]⟩
  · exact ⟨_, rfl⟩

theorem testId_eq_ok (w : StepWriter) (number : Nat) (h : leaf < t.size) :
    w.options.testId t number leaf = .ok (t.testCase w number leaf).id := by
  obtain ⟨id, hid⟩ := testId_ok w.options number h
  rw [testCase, hid]
  rfl

@[simp]
theorem testId_clear (o : Options) (t : ExecutionTree) (number : Nat) (leaf : NodeId) :
    o.testId t.clear number leaf = o.testId t number leaf := by
  rw [Options.testId, Options.testId, node?_clear]
  cases t.node? leaf <;> rfl

@[simp]
theorem markings_clear (t : ExecutionTree) (path : List NodeId) :
    (path.filterMap t.clear.node?).map (fun n => n.marking) =
      (path.filterMap t.node?).map fun n => n.marking := by
  rw [List.map_filterMap, List.map_filterMap]
  congr 1
  funext id
  rw [node?_clear, Option.map_map]
  rfl

end ExecutionTree

namespace Run

variable {w : StepWriter} {t : ExecutionTree} {leaf : NodeId} {leaves : List NodeId}

theorem visits_testBody (h : t.WellFormed) (path : List NodeId) :
    Visits w t (testBody w path) path (t.bodyOf w path) := by
  refine visits_get (fun done signal phases => ?_)
    ((visits_nodes h path).map fun code =>
      w.startTag ((path.filterMap t.node?).map fun n => n.marking) ++ code)
  show (nodesCode w path >>= fun code => pure
    (w.startTag ((path.filterMap (t.complete w done).node?).map fun n => n.marking) ++ code)) = _
  rw [eq_of_clear_eq (f := fun t => (path.filterMap t.node?).map fun n => n.marking)
    (fun t => t.markings_clear path) (clear_complete w done t)]

theorem visits_leafBody (h : t.WellFormed) (hleaf : leaf < t.size) :
    Visits w t (leafBody w leaf) (t.ancestry t.size leaf) (t.bodyOf w (t.ancestry t.size leaf)) := by
  refine visits_get (fun done signal phases => ?_)
    ((visits_ofTree (WellFormed.pathTo_ok hleaf)).bind (visits_testBody h _))
  show (ofTree ((t.complete w done).pathTo leaf) >>= testBody w) = _
  rw [eq_of_clear_eq (f := fun t => t.pathTo leaf) (fun t => t.pathTo_clear leaf)
    (clear_complete w done t)]

theorem visits_testCases (h : t.WellFormed) (hleaves : ∀ leaf ∈ leaves, leaf < t.size) (number : Nat) :
    Visits w t (testCases w number leaves) (leaves.flatMap (t.ancestry t.size))
      (t.testCases w number leaves) := by
  induction leaves generalizing number with
  | nil => exact visits_pure []
  | cons leaf leaves ih =>
    obtain ⟨hleaf, hleaves⟩ := List.forall_mem_cons.mp hleaves
    have hrest := (visits_ofTree (w := w) (t := t) (testId_eq_ok w number hleaf)).bind
      (f := fun id => do
        return ⟨id, t.bodyOf w (t.ancestry t.size leaf)⟩ :: (← testCases w (number + 1) leaves))
      ((ih hleaves (number + 1)).map fun tests => t.testCase w number leaf :: tests)
    rw [List.flatMap_cons, testCases_cons]
    refine (visits_leafBody h hleaf).bind (visits_get (fun done signal phases => ?_) hrest)
    show (ofTree (w.options.testId (t.complete w done) number leaf) >>= _) = _
    rw [eq_of_clear_eq (f := fun t => w.options.testId t number leaf)
      (fun t => testId_clear w.options t number leaf) (clear_complete w done t)]

/-! ### Suites -/

theorem enter_run (phase : Phase) (s : RunState) :
    (enter phase).run.run s = (.ok (), { s with phases := s.phases ++ [phase] }) :=
  rfl

end Run

/-- The nodes that a run comes to, in order. -/
def StepWriter.visits (w : StepWriter) (t : ExecutionTree) : List NodeId :=
  (if w.options.eager then t.breadthFirst else []) ++ t.leaves.flatMap (t.ancestry t.size)

/-- The phases that a run enters before it ends. -/
def StepWriter.phases (w : StepWriter) (t : ExecutionTree) (signal : Signal) : List Phase :=
  if w.options.eager then
    .traversing :: if signal.allows t.breadthFirst.length then [.rendering] else []
  else [.rendering]

namespace Run

variable {w : StepWriter} {t : ExecutionTree}

theorem visits_rendering (h : t.WellFormed) (name : String) :
    Visits w t (do return .assemble w.model w.options name (← testCases w 1 (← get).tree.leaves))
      (t.leaves.flatMap (t.ancestry t.size))
      (Suite.assemble w.model w.options name (t.testCases w 1 t.leaves)) := by
  refine visits_get (fun done signal phases => ?_)
    ((visits_testCases h (fun leaf hleaf => (h.mem_leaves_iff.mp hleaf).2.1) 1).map
      (Suite.assemble w.model w.options name))
  show (testCases w 1 (t.complete w done).leaves >>= _) = _
  rw [eq_of_clear_eq leaves_clear (clear_complete w done t)]

/-- A run gives the suite of the tests, unless a poll before one of its nodes stops it. -/
theorem suite_run (h : t.WellFormed) (name : String) (done : List NodeId) (signal : Signal)
    (phases : List Phase) :
    (Run.suite w name).run.run ⟨t.complete w done, signal, phases⟩ =
      (if signal.allows (w.visits t).length then
          .ok (.assemble w.model w.options name (t.testCases w 1 t.leaves))
        else .error .cancelled,
        ⟨t.complete w (done ++ signal.reached (w.visits t)), signal.after (w.visits t).length,
          phases ++ w.phases t signal⟩) := by
  rw [suite, StepWriter.visits, StepWriter.phases]
  cases heager : w.options.eager with
  | false =>
    rw [if_neg Bool.false_ne_true, if_neg Bool.false_ne_true, if_neg Bool.false_ne_true, List.nil_append,
      bind_ok (enter_run .rendering _)]
    exact visits_rendering h name done signal (phases ++ [.rendering])
  | true =>
    have hfill := visits_fillTree (w := w) h done signal (phases ++ [.traversing])
    rw [if_pos rfl, if_pos rfl, if_pos rfl, bind_ok (enter_run .traversing _), List.length_append,
      Signal.allows_add, Signal.after_add, Signal.reached_append]
    cases hallows : signal.allows t.breadthFirst.length with
    | true =>
      rw [hallows, if_pos rfl] at hfill
      rw [bind_ok hfill, bind_ok (enter_run .rendering _), Bool.true_and, if_pos rfl, ← List.append_assoc,
        ← List.singleton_append (l := [Phase.rendering]), ← List.append_assoc]
      exact visits_rendering h name (done ++ signal.reached t.breadthFirst) _ _
    | false =>
      rw [hallows, if_neg Bool.false_ne_true] at hfill
      rw [bind_error hfill, Bool.false_and, if_neg Bool.false_ne_true, if_neg Bool.false_ne_true,
        Signal.after_of_not_allows hallows]
      simp [Signal.reached, Signal.after]

end Run

end TestScribe

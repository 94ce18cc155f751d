import Mathlib.Data.List.Basic
import TestScribe.Proofs.Code.GoalTags
import TestScribe.Proofs.Run.Generation
import TestScribe.Proofs.Tree.Matching

/-!
# Bodies of tests

The body of a test is written from the nodes it runs through, none of which is the root (`result_review`,
`testCases_clear`). Where two trees have the same shape and each node but the root is written the same in both
(`WrittenAlike`), runs give the same suite (`result_generate_of_writtenAlike`).
-/

namespace TestScribe

open ExecutionTree

namespace ExecutionTree

/-- The nodes that a test runs through which ends at a node, without the root. -/
def nodesTo (t : ExecutionTree) (leaf : NodeId) : List Node :=
  (t.ancestry t.size leaf).filterMap t.node?

end ExecutionTree

namespace StepWriter

variable {w : StepWriter} {t : ExecutionTree}

/-- The code of a node in a test; the constructor has none. -/
def nodeText (w : StepWriter) (n : Node) : String :=
  if w.model.isConstructor n.event then ""
  else w.inputCode n.testCaseId n.toStep ++ w.oracleCode n.testCaseId n.toStep

def body (w : StepWriter) (nodes : List Node) : String :=
  w.startTag (nodes.map fun n => n.marking) ++ String.join (nodes.map w.nodeText)

theorem codeOf_clear (w : StepWriter) (t : ExecutionTree) (id : NodeId) :
    t.clear.codeOf w id = ((t.node? id).map w.nodeText).getD "" := by
  rw [codeOf, node?_clear]
  cases t.node? id <;> rfl

/-- From empty slots, a body is the text of its nodes. -/
theorem bodyOf_clear (w : StepWriter) (t : ExecutionTree) (ids : List NodeId) :
    t.clear.bodyOf w ids = w.body (ids.filterMap t.node?) := by
  have htexts : String.join (ids.map (t.clear.codeOf w)) =
      String.join ((ids.filterMap t.node?).map w.nodeText) := by
    induction ids with
    | nil => rfl
    | cons id ids ih =>
      rw [List.map_cons, String.join_cons, ih, codeOf_clear]
      cases hn : t.node? id with
      | none =>
        rw [List.filterMap_cons_none hn]
        exact String.empty_append
      | some n =>
        rw [List.filterMap_cons_some hn, List.map_cons, String.join_cons]
        rfl
  rw [bodyOf, markings_clear, htexts, body]

/-- The tests of a tree, each with the text of the nodes to its leaf. -/
theorem testCases_clear (w : StepWriter) (t : ExecutionTree) (number : Nat) (leaves : List NodeId) :
    t.clear.testCases w number leaves = leaves.mapIdx fun k leaf =>
      ⟨(w.options.testId t (number + k) leaf).toOption.getD "", w.body (t.nodesTo leaf)⟩ := by
  rw [ExecutionTree.testCases]
  simp only [testCase, testId_clear, path_clear, bodyOf_clear]
  rfl

end StepWriter

namespace Generator

variable {g : Generator} {tree : ExecutionTree} {leaf : NodeId}

theorem result_review (h : tree.WellFormed) (hleaf : leaf < tree.size) (signal : Signal) :
    (g.review tree signal leaf).result =
      if signal.allows (tree.ancestry tree.size leaf).length then
        .ok ((g.writer tree).body (tree.nodesTo leaf))
      else .error .cancelled := by
  rw [review_eq h hleaf]
  dsimp only
  rw [StepWriter.bodyOf_clear]
  rfl

theorem result_generate (h : tree.WellFormed) (signal : Signal) (name : String) :
    (g.generate tree signal name).result =
      if signal.allows ((g.writer tree).visits tree).length then
        .ok (.assemble g.model g.options name (tree.clear.testCases (g.writer tree) 1 tree.leaves))
      else .error .cancelled := by
  rw [generate_eq h]
  rfl

end Generator

/-! ### Trees that are written alike -/

namespace ExecutionTree

namespace SameShape

variable {t t' : ExecutionTree}

theorem visits (h : t.SameShape t') (w : StepWriter) : w.visits t = w.visits t' := by
  rw [StepWriter.visits, StepWriter.visits, h.breadthFirst, h.leaves, h.ancestry]

theorem testId (h : t.SameShape t') (o : Options) (number : Nat) (leaf : NodeId) :
    o.testId t number leaf = o.testId t' number leaf := by
  rw [Options.testId, Options.testId]
  have hid := h.map_node? (f := Node.testCaseId) leaf fun hn hn' => (h.node hn hn').testCaseId
  cases hn : t.node? leaf <;> cases hn' : t'.node? leaf <;> rw [hn, hn'] at hid <;> simp_all

end SameShape

/-- The trees have the same shape, and for each node but the root the writer has the same text in both; where tags
stand at the start of tests, the markings of these nodes satisfy the same goals. -/
structure WrittenAlike (w : StepWriter) (t t' : ExecutionTree) : Prop where
  shape : t.SameShape t'
  text : ∀ {i n n'}, i ≠ root → t.node? i = some n → t'.node? i = some n' → w.nodeText n = w.nodeText n'
  goals : w.options.tagsAtStart = true → ∀ {i n n'}, i ≠ root → t.node? i = some n → t'.node? i = some n' →
    ∀ goal ∈ w.model.goals, n.marking.satisfies goal = n'.marking.satisfies goal

namespace WrittenAlike

variable {w : StepWriter} {t t' : ExecutionTree} {leaf : NodeId}

theorem map_nodesTo {α : Type} {f : Node → α} (h : t.WrittenAlike w t') (hw : t.WellFormed)
    (hleaf : leaf < t.size)
    (hf : ∀ {i n n'}, i ≠ root → t.node? i = some n → t'.node? i = some n' → f n = f n') :
    (t.nodesTo leaf).map f = (t'.nodesTo leaf).map f := by
  rw [nodesTo, nodesTo, List.map_filterMap, List.map_filterMap, h.shape.ancestry]
  refine List.filterMap_congr fun i hi => h.shape.map_node? i fun hn hn' => ?_
  rw [← h.shape.ancestry] at hi
  exact hf ((hw.mem_ancestry_iff hleaf hleaf).mp hi).1 hn hn'

theorem body (h : t.WrittenAlike w t') (hw : t.WellFormed) (hleaf : leaf < t.size) :
    w.body (t.nodesTo leaf) = w.body (t'.nodesTo leaf) := by
  rw [StepWriter.body, StepWriter.body, h.map_nodesTo hw hleaf h.text]
  congr 1
  unfold StepWriter.startTag
  split
  · next htags =>
    rw [goalsOnPath_eq, goalsOnPath_eq]
    congr 2
    refine List.filter_congr fun goal hgoal => ?_
    have hsatisfies := h.map_nodesTo (f := fun n => n.marking.satisfies goal) hw hleaf
      fun hi hn hn' => h.goals htags hi hn hn' goal hgoal
    have hany := congrArg (fun l => l.any id) hsatisfies
    rw [List.any_map, List.any_map] at hany ⊢
    exact hany
  · rfl

theorem testCases (h : t.WrittenAlike w t') (hw : t.WellFormed) :
    t.clear.testCases w 1 t.leaves = t'.clear.testCases w 1 t'.leaves := by
  rw [StepWriter.testCases_clear, StepWriter.testCases_clear, ← h.shape.leaves]
  refine List.mapIdx_eq_mapIdx_iff.mpr fun k hk => ?_
  have hleaf := (hw.mem_leaves_iff.mp (List.getElem_mem hk)).2.1
  rw [h.shape.testId, h.body hw hleaf]

end WrittenAlike

theorem MatchedBy.writtenAlike {w : StepWriter} {t t' : ExecutionTree} {R : Step → Step → Prop}
    (h : t.MatchedBy R t')
    (htext : ∀ {n n' : Node}, n.SamePlace n' → R n.toStep n'.toStep → w.nodeText n = w.nodeText n')
    (hgoals : w.options.tagsAtStart = true → ∀ {s s'}, R s s' →
      ∀ goal ∈ w.model.goals, s.marking.satisfies goal = s'.marking.satisfies goal) :
    t.WrittenAlike w t' where
  shape := h.shape
  text hi hn hn' := htext (h.shape.node hn hn') (h.step hi hn hn')
  goals htags _ _ _ hi hn hn' := hgoals htags (h.step hi hn hn')

end ExecutionTree

/-- Runs on trees that are written alike poll alike, and give the same suite when no poll stops them. -/
theorem Generator.result_generate_of_writtenAlike {g : Generator} {tree tree' : ExecutionTree}
    (hw : tree.WellFormed) (h : tree.WrittenAlike (g.writer tree) tree') (signal : Signal) (name : String) :
    (g.generate tree signal name).result = (g.generate tree' signal name).result := by
  have hwriter : g.writer tree = g.writer tree' := by
    rw [writer, writer, h.shape.kind]
  rw [result_generate hw, result_generate (h.shape.wellFormed hw), ← hwriter, h.testCases hw,
    h.shape.visits]

end TestScribe

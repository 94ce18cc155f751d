import TestScribe.Proofs.Run.Bodies
import TestScribe.Proofs.Tree.Renumbering

/-!
# The order of insertion does not show

Trees that differ in the numbers of their nodes give the same tests: a run on the one comes to the nodes that a run
on the other comes to, and no number of a node is part of any text (`generate_renumbered`).
-/

namespace TestScribe

open ExecutionTree (root rooted)

namespace ExecutionTree.Renumbered

variable {f : NodeId → NodeId} {t t' : ExecutionTree} {leaf : NodeId}

theorem path (h : t.Renumbered f t') (hw : t.WellFormed) (hleaf : leaf < t.size) :
    t'.ancestry t'.size (f leaf) = (t.ancestry t.size leaf).map f := by
  rw [← h.size_eq, h.ancestry hw t.size hleaf]

theorem paths (h : t.Renumbered f t') (hw : t.WellFormed) :
    t'.leaves.flatMap (t'.ancestry t'.size) = (t.leaves.flatMap (t.ancestry t.size)).map f := by
  rw [h.leaves hw, List.flatMap_map, List.map_flatMap]
  exact List.flatMap_congr fun leaf hleaf => h.path hw (hw.mem_leaves_iff.mp hleaf).2.1

theorem visits (h : t.Renumbered f t') (hw : t.WellFormed) (w : StepWriter) :
    w.visits t' = (w.visits t).map f := by
  rw [StepWriter.visits, h.paths hw, StepWriter.visits, List.map_append]
  split
  · rw [h.breadthFirst hw]
  · rfl

theorem testId (h : t.Renumbered f t') (hleaf : leaf < t.size) (o : Options) (number : Nat) :
    o.testId t' number (f leaf) = o.testId t number leaf := by
  obtain ⟨n, hn⟩ := exists_node hleaf
  have hid := h.map_node? (F := Node.testCaseId) hleaf (fun _ => rfl) fun _ => rfl
  rw [hn, Option.map_some] at hid
  obtain ⟨n', hn', hid⟩ := Option.map_eq_some_iff.mp hid
  rw [Options.testId, Options.testId, hn, hn']
  dsimp only
  rw [hid]

/-- What is read off the nodes to a leaf, other than their numbers and slots, is the same. -/
theorem map_nodesTo {α : Type} {F : Node → α} (h : t.Renumbered f t') (hw : t.WellFormed) (hleaf : leaf < t.size)
    (hclear : ∀ n, F n.clear = F n) (hnumbers : ∀ n : Node, F (n.renumber f) = F n) :
    (t'.nodesTo (f leaf)).map F = (t.nodesTo leaf).map F := by
  rw [nodesTo, nodesTo, h.path hw hleaf, List.filterMap_map, List.map_filterMap, List.map_filterMap]
  refine List.filterMap_congr fun i hi => h.map_node? ?_ hclear hnumbers
  have hunder := ((hw.mem_ancestry_iff hleaf hleaf).mp hi).2
  exact Nat.lt_of_le_of_lt (hw.under_le hunder) hleaf

theorem body (h : t.Renumbered f t') (hw : t.WellFormed) (hleaf : leaf < t.size) (w : StepWriter) :
    w.body (t'.nodesTo (f leaf)) = w.body (t.nodesTo leaf) := by
  rw [StepWriter.body, h.map_nodesTo hw hleaf (fun _ => rfl) fun _ => rfl,
    h.map_nodesTo (F := w.nodeText) hw hleaf (fun _ => rfl) fun _ => rfl, StepWriter.body]

theorem testCases (h : t.Renumbered f t') (hw : t.WellFormed) (w : StepWriter) :
    t'.clear.testCases w 1 t'.leaves = t.clear.testCases w 1 t.leaves := by
  rw [StepWriter.testCases_clear, StepWriter.testCases_clear, h.leaves hw]
  refine List.ext_getElem? fun k => ?_
  rw [List.getElem?_mapIdx, List.getElem?_mapIdx, List.getElem?_map]
  cases hk : t.leaves[k]? with
  | none => rfl
  | some leaf =>
    have hleaf := (hw.mem_leaves_iff.mp (List.mem_of_getElem? hk)).2.1
    rw [Option.map_some, Option.map_some, Option.map_some, h.testId hleaf, h.body hw hleaf]

end ExecutionTree.Renumbered

namespace Generator

variable {tree tree' : ExecutionTree} {f : NodeId → NodeId}

/-- Where the nodes of two trees correspond, runs give the same suite, and previews of corresponding leaves give the
same text, whatever request to cancel their polls see. -/
theorem generate_renumbered (g : Generator) (h : tree.Reachable) (h' : tree'.Reachable)
    (hf : tree.Renumbered f tree') :
    (∀ name, ∃ suite, (g.generate tree .quiet name).result = .ok suite ∧
      (g.generate tree' .quiet name).result = .ok suite) ∧
    tree'.leaves = tree.leaves.map f ∧
    (∀ leaf ∈ tree.leaves, ∃ text, (g.review tree .quiet leaf).result = .ok text ∧
      (g.review tree' .quiet (f leaf)).result = .ok text) ∧
    ∀ signal,
      (∀ name, (g.generate tree' signal name).result = (g.generate tree signal name).result) ∧
      ∀ i < tree.size, (g.review tree' signal (f i)).result = (g.review tree signal i).result := by
  have hw := h.wellFormed
  have hwriter : g.writer tree' = g.writer tree := by rw [writer, writer, hf.kind]
  have hgenerate (signal : Signal) (name : String) :
      (g.generate tree' signal name).result = (g.generate tree signal name).result := by
    rw [result_generate h'.wellFormed, result_generate hw, hwriter, hf.testCases hw, hf.visits hw,
      List.length_map]
  have hreview (signal : Signal) {i : NodeId} (hi : i < tree.size) :
      (g.review tree' signal (f i)).result = (g.review tree signal i).result := by
    rw [result_review h'.wellFormed (hf.lt_size hi), result_review hw hi, hwriter, hf.body hw hi, hf.path hw hi,
      List.length_map]
  refine ⟨fun name => ?_, hf.leaves hw, fun leaf hleaf => ?_, fun signal => ⟨hgenerate signal, fun i => hreview signal⟩⟩
  · have hresult := result_generate (g := g) hw .quiet name
    exact ⟨_, hresult, (hgenerate .quiet name).trans hresult⟩
  · have hlt := (hw.mem_leaves_iff.mp hleaf).2.1
    have hresult := result_review (g := g) hw hlt .quiet
    exact ⟨_, hresult, (hreview .quiet hlt).trans hresult⟩

/-- A tree that grows test by test and one that grows level by level. -/
theorem generate_renumbered_levels :
    let step (event : String) := Step.firing (.named event)
    let deep := (rooted .standard (.constructor "new") ∅).afterAll
      [.addChild 0 (step "login") none, .addChild 1 (step "pay") none, .addChild 0 (step "browse") none,
        .addChild 3 (step "logout") (some "end")]
    let wide := (rooted .standard (.constructor "new") ∅).afterAll
      [.addChild 0 (step "login") none, .addChild 0 (step "browse") none, .setCode 1 .input "stale();",
        .addChild 1 (step "pay") none, .addChild 2 (step "logout") (some "end")]
    let f : NodeId → NodeId := fun i => if i = 2 then 3 else if i = 3 then 2 else i
    let g : Generator := ⟨(Draft.empty "Shop").toModel, .default⟩
    deep.Renumbered f wide ∧ deep.leaves = [2, 4] ∧ wide.leaves = [3, 4] ∧
      deep.breadthFirst = [1, 3, 2, 4] ∧ wide.breadthFirst = [1, 2, 3, 4] ∧
      (∃ suite, (g.generate deep .quiet "Shop").result = .ok suite ∧
        (g.generate wide .quiet "Shop").result = .ok suite) ∧
      (g.review wide .quiet 3).result = (g.review deep .quiet 2).result ∧
      (g.review wide .quiet 3).result.toOption = some "\n\t\tShop.login();\n\t\tShop.pay();" := by
  intro step deep wide f g
  have hdeep : deep.Reachable := (ExecutionTree.Reachable.rooted _ _ _).afterAll _
  have hwide : wide.Reachable := (ExecutionTree.Reachable.rooted _ _ _).afterAll _
  have hbelow : ∀ i < 5, f i < 5 ∧ f (f i) = i := by decide
  have hbijOn : Set.BijOn f (Set.Iio 5) (Set.Iio 5) :=
    ⟨fun i hi => (hbelow i hi).1, fun i hi j hj heq => by rw [← (hbelow i hi).2, heq, (hbelow j hj).2],
      fun j hj => ⟨f j, hbelow j hj⟩⟩
  have hsizes : deep.size = 5 ∧ wide.size = 5 := by decide +kernel
  have hf : deep.Renumbered f wide := by
    refine ⟨by decide +kernel, ?_, rfl, by decide +kernel⟩
    rw [hsizes.1, hsizes.2]
    exact hbijOn
  obtain ⟨hsuites, -, -, hsignals⟩ := generate_renumbered g hdeep hwide hf
  exact ⟨hf, by decide +kernel, by decide +kernel, by decide +kernel, by decide +kernel, hsuites "Shop",
    (hsignals .quiet).2 2 (by decide +kernel), by decide +kernel⟩

end Generator

end TestScribe

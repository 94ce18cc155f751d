import TestScribe.Generator
import TestScribe.Model.Draft
import TestScribe.Proofs.Run.Visits
import TestScribe.Proofs.Tree.Levels

/-!
# What a generator gives

`review_eq`, `treeCode_eq` and `generate_eq` give the whole outcome of an operation: a run starts from empty slots, visits
nodes in an order of its own and leaves the visited ones completed. Two runs that visit the same nodes
leave the same tree, so the order in which an eager and a lazy run write the code does not show
(`generate_eager`), and a test of a suite is what the preview of its leaf shows (`generate_previews`).
-/

namespace TestScribe

open ExecutionTree

namespace ExecutionTree

variable {t : ExecutionTree}

@[simp]
theorem path_clear (t : ExecutionTree) : t.clear.ancestry t.clear.size = t.ancestry t.size := by
  funext id
  rw [size_clear, ancestry_congr t.parentOf_clear]

end ExecutionTree

namespace StepWriter

@[simp]
theorem visits_clear (w : StepWriter) (t : ExecutionTree) : w.visits t.clear = w.visits t := by
  rw [visits, visits, breadthFirst_clear, leaves_clear, path_clear]

@[simp]
theorem phases_clear (w : StepWriter) (t : ExecutionTree) (signal : Signal) :
    w.phases t.clear signal = w.phases t signal := by
  rw [phases, phases, breadthFirst_clear]

/-- Eager or not, a run visits every node but the root. -/
theorem mem_visits_iff (w : StepWriter) {t : ExecutionTree} (h : t.WellFormed) {i : NodeId} :
    i ∈ w.visits t ↔ i ≠ root ∧ i < t.size := by
  rw [visits, List.mem_append, h.mem_path_iff]
  constructor
  · rintro (hi | hi)
    · split at hi
      · exact h.mem_breadthFirst_iff.mp hi
      · cases hi
    · exact hi
  · exact .inr

/-- The writers put the same code into the same slots. -/
structure SameCode (w w' : StepWriter) : Prop where
  isConstructor : ∀ event, w.model.isConstructor event = w'.model.isConstructor event
  write : ∀ n slot, w.write n slot = w'.write n slot

namespace SameCode

variable {w w' : StepWriter}

theorem slotText (h : w.SameCode w') : w.slotText = w'.slotText := by
  funext n slot
  rw [StepWriter.slotText, StepWriter.slotText, h.write]

theorem complete (h : w.SameCode w') : ExecutionTree.complete w = ExecutionTree.complete w' := by
  have hnode : Node.complete w = Node.complete w' := by
    funext n
    rw [Node.complete, Node.complete, h.isConstructor, h.slotText]
  funext ids t
  rw [ExecutionTree.complete, ExecutionTree.complete, hnode]

theorem codeOf (h : w.SameCode w') : ExecutionTree.codeOf w = ExecutionTree.codeOf w' := by
  funext t id
  simp only [ExecutionTree.codeOf, h.isConstructor, h.slotText]

theorem testCases (h : w.SameCode w') (htag : w.startTag = w'.startTag)
    (hid : w.options.testId = w'.options.testId) :
    ExecutionTree.testCases w = ExecutionTree.testCases w' := by
  funext t number leaves
  simp only [ExecutionTree.testCases, ExecutionTree.testCase, ExecutionTree.bodyOf, h.codeOf, htag, hid]

end SameCode

end StepWriter

/-- Two tests that share their first step. The second goes on with the constructor, in other letters. -/
def sharedLogin : ExecutionTree :=
  (((rooted .standard (.constructor "new") ∅).withStep 0 (.firing (.named "login"))).withStep 1
    (.firing (.named "logout"))).withStep 1 (.firing (.named "New"))

theorem reachable_sharedLogin : sharedLogin.Reachable :=
  (((Reachable.rooted _ _ _).withStep _ _).withStep _ _).withStep _ _

namespace Generator

variable {g : Generator} {tree : ExecutionTree} {leaf : NodeId}

def withEager (g : Generator) (eager : Bool) : Generator :=
  { g with options := { g.options with eager } }

/-! ### Outcomes -/

theorem review_eq (h : tree.WellFormed) (hleaf : leaf < tree.size) (signal : Signal) :
    g.review tree signal leaf =
      { result :=
          if signal.allows (tree.ancestry tree.size leaf).length then
            .ok (tree.clear.bodyOf (g.writer tree) (tree.ancestry tree.size leaf))
          else .error .cancelled
        tree := tree.clear.complete (g.writer tree) (signal.reached (tree.ancestry tree.size leaf))
        signal := signal.after (tree.ancestry tree.size leaf).length
        phases := [] } := by
  have hrun := Run.visits_leafBody (w := g.writer tree) h.clear
    (by rw [size_clear]; exact hleaf) [] signal []
  rw [complete_nil, path_clear, List.nil_append] at hrun
  rw [review, Run.report, hrun]

/-- An unknown leaf has no path, and no node is visited. -/
theorem review_of_unknown (hleaf : ¬ leaf < tree.size) (signal : Signal) :
    g.review tree signal leaf = ⟨.error (.tree (.unknownNode leaf)), tree.clear, signal, []⟩ := by
  have hpath : tree.clear.pathTo leaf = .error (.unknownNode leaf) := by
    rw [pathTo_clear, WellFormed.pathTo_of_unknown (Nat.le_of_not_lt hleaf)]
  rw [review, Run.report, Run.leafBody, Run.get_run, hpath]
  rfl

/-- The slots are not cleared first. -/
theorem treeCode_eq (h : tree.WellFormed) (signal : Signal) :
    g.treeCode tree signal =
      { result := if signal.allows tree.breadthFirst.length then .ok () else .error .cancelled
        tree := tree.complete (g.writer tree) (signal.reached tree.breadthFirst)
        signal := signal.after tree.breadthFirst.length
        phases := [] } := by
  have hrun := Run.visits_fillTree (w := g.writer tree) h [] signal []
  rw [complete_nil, List.nil_append] at hrun
  rw [treeCode, Run.report, hrun]

theorem render_eq (h : tree.WellFormed) (signal : Signal) (name : String) :
    g.render tree signal name =
      { result :=
          if signal.allows ((g.writer tree).visits tree).length then
            .ok (.assemble g.model g.options name (tree.clear.testCases (g.writer tree) 1 tree.leaves))
          else .error .cancelled
        tree := tree.clear.complete (g.writer tree) (signal.reached ((g.writer tree).visits tree))
        signal := signal.after ((g.writer tree).visits tree).length
        phases := .idle :: (g.writer tree).phases tree signal } := by
  have hrun := Run.suite_run (w := g.writer tree) h.clear name [] signal [.idle]
  rw [complete_nil, StepWriter.visits_clear, StepWriter.phases_clear, leaves_clear,
    List.nil_append] at hrun
  rw [render, Run.report, hrun]
  rfl

theorem generate_eq (h : tree.WellFormed) (signal : Signal) (name : String) :
    g.generate tree signal name =
      Report.finish
        { result :=
            if signal.allows ((g.writer tree).visits tree).length then
              .ok (.assemble g.model g.options name (tree.clear.testCases (g.writer tree) 1 tree.leaves))
            else .error .cancelled
          tree := tree.clear.complete (g.writer tree) (signal.reached ((g.writer tree).visits tree))
          signal := signal.after ((g.writer tree).visits tree).length
          phases := .idle :: (g.writer tree).phases tree signal } := by
  rw [generate, render_eq h]

/-! ### Eager and lazy runs -/

theorem sameCode_withEager (g : Generator) (tree : ExecutionTree) (eager : Bool) :
    ((g.withEager eager).writer tree).SameCode (g.writer tree) :=
  ⟨fun _ => rfl, fun _ slot => by cases slot <;> rfl⟩

theorem testCases_withEager (g : Generator) (tree : ExecutionTree) (eager : Bool) :
    ExecutionTree.testCases ((g.withEager eager).writer tree) = ExecutionTree.testCases (g.writer tree) :=
  (g.sameCode_withEager tree eager).testCases rfl rfl

/-- A run that nothing stops completes every node but the root. -/
theorem generate_withEager (h : tree.WellFormed) (name : String) (eager : Bool) :
    ((g.withEager eager).generate tree .quiet name).result =
        .ok (.assemble g.model g.options name (tree.clear.testCases (g.writer tree) 1 tree.leaves)) ∧
      ((g.withEager eager).generate tree .quiet name).tree =
        tree.clear.complete (g.writer tree) ((g.writer tree).visits tree) := by
  rw [generate_eq h, testCases_withEager, (g.sameCode_withEager tree eager).complete]
  refine ⟨rfl, complete_congr h.clear fun i _ => ?_⟩
  rw [Signal.reached, StepWriter.mem_visits_iff _ h, StepWriter.mem_visits_iff _ h]

/-- Eager or lazy, an uncancelled run gives the same suite and leaves the same tree: the one it started
from, with the code of every node but the root and the constructors. -/
theorem generate_eager (g : Generator) (h : tree.Reachable) (name : String) :
    let eager := (g.withEager true).generate tree .quiet name
    let lazy := (g.withEager false).generate tree .quiet name
    (∃ suite, eager.result = .ok suite ∧ lazy.result = .ok suite) ∧ eager.tree = lazy.tree ∧
      eager.tree.clear = tree.clear ∧
      ∀ id n, eager.tree.node? id = some n →
        if id ≠ root ∧ g.model.isConstructor n.event = false then
          n.inputCode = some ((g.writer tree).inputCode n.testCaseId n.toStep) ∧
            n.oracleCode = some ((g.writer tree).oracleCode n.testCaseId n.toStep)
        else n.inputCode = none ∧ n.oracleCode = none := by
  have hwf := h.wellFormed
  obtain ⟨heager, htree⟩ := generate_withEager (g := g) hwf name true
  obtain ⟨hlazy, htree'⟩ := generate_withEager (g := g) hwf name false
  refine ⟨⟨_, heager, hlazy⟩, htree.trans htree'.symm, ?_, fun id n hn => ?_⟩
  · rw [htree, clear_complete, clear_clear]
  · rw [htree] at hn
    have hcode : ∀ slot, n.code? slot =
        if id ≠ root ∧ g.model.isConstructor n.event = false then
          some ((g.writer tree).write n slot)
        else none := fun slot => by
      have hlt := lt_size hn
      rw [size_complete, size_clear] at hlt
      rw [code?_complete_clear hwf hn]
      refine ite_congr ?_ (fun _ => rfl) fun _ => rfl
      rw [StepWriter.mem_visits_iff _ hwf, and_iff_left hlt]
      rfl
    split
    · next hif => exact ⟨(hcode .input).trans (if_pos hif), (hcode .oracle).trans (if_pos hif)⟩
    · next hif => exact ⟨(hcode .input).trans (if_neg hif), (hcode .oracle).trans (if_neg hif)⟩

/-- The code of a shared login is written once, and that of the constructor nowhere. -/
theorem generate_eager_sharedLogin :
    let g : Generator := ⟨(Draft.empty "Bank").toModel, .default⟩
    let eager := (g.withEager true).generate sharedLogin .quiet "BankTest"
    let lazy := (g.withEager false).generate sharedLogin .quiet "BankTest"
    sharedLogin.leaves = [2, 3] ∧ (∃ suite, eager.result = .ok suite ∧ lazy.result = .ok suite) ∧
      eager.tree = lazy.tree ∧ eager.tree.clear = sharedLogin.clear ∧
      eager.tree.nodes.toList.map (fun n => n.inputCode) =
        [none, some "\n\t\tBank.login();", some "\n\t\tBank.logout();", none] :=
  have h := generate_eager ⟨(Draft.empty "Bank").toModel, .default⟩ reachable_sharedLogin "BankTest"
  ⟨by decide +kernel, h.1, h.2.1, h.2.2.1, by decide +kernel⟩

/-! ### Suites and previews -/

/-- The tests are what the previews of the leaves show, one for each leaf and numbered from 1. -/
structure Previews (g : Generator) (tree : ExecutionTree) (tests : List TestCase) : Prop where
  length_eq : tests.length = tree.leaves.length
  test : ∀ k leaf, tree.leaves[k]? = some leaf → ∃ id body, tests[k]? = some ⟨id, body⟩ ∧
    g.options.testId tree (k + 1) leaf = .ok id ∧ (g.review tree .quiet leaf).result = .ok body

theorem previews_testCases (h : tree.WellFormed) :
    g.Previews tree (tree.clear.testCases (g.writer tree) 1 tree.leaves) := by
  refine ⟨List.length_mapIdx, fun k leaf hleaf => ?_⟩
  have hlt := (h.mem_leaves_iff.mp (List.mem_of_getElem? hleaf)).2.1
  refine ⟨(tree.clear.testCase (g.writer tree) (k + 1) leaf).id,
    (tree.clear.testCase (g.writer tree) (k + 1) leaf).body, ?_, ?_, ?_⟩
  · rw [ExecutionTree.testCases, List.getElem?_mapIdx, hleaf, Option.map_some, Nat.add_comm 1]
  · rw [← testId_clear]
    exact testId_eq_ok (g.writer tree) (k + 1) (by rwa [size_clear])
  · rw [review_eq h hlt, ExecutionTree.testCase, path_clear]
    rfl

/-- The files of a suite hold what the previews of the leaves show, and no leaf is lost or repeated. -/
theorem generate_previews (g : Generator) (h : tree.Reachable) (name : String) :
    ∃ tests, g.Previews tree tests ∧ tree.leaves.Nodup ∧
      (∀ id, id ∈ tree.leaves ↔ id ≠ root ∧ id < tree.size ∧ tree.childrenOf id = []) ∧
      (g.generate tree .quiet name).result = .ok
        { name
          files :=
            let layout := g.options.language.layout
            let extension := "." ++ g.options.language.fileExtension
            let info : FileInfo := ⟨name, g.model.systemName⟩
            let stem (test : TestCase) := name ++ "_" ++ test.id
            if g.options.separateTestFiles then
              tests.map (fun test =>
                ⟨stem test ++ extension, layout.render ⟨stem test, g.model.systemName⟩ [test]⟩) ++
              [⟨name ++ extension, layout.index info (tests.map stem)⟩]
            else
              [⟨name ++ extension,
                layout.header info ++
                  String.join (tests.map fun test => layout.testCase info test.id test.body) ++
                  layout.footer info (tests.map TestCase.id)⟩] } := by
  have hwf := h.wellFormed
  refine ⟨_, previews_testCases hwf, hwf.nodup_leaves, fun _ => hwf.mem_leaves_iff, ?_⟩
  rw [generate_eq hwf]
  show Except.ok (Suite.assemble g.model g.options name _) = _
  rw [Suite.assemble]
  split
  · simp only [separateFile, List.map_map, Function.comp_def, String.append_assoc]
  · simp only [Layout.render, String.append_assoc]

/-- In one file, the second test ends where its constructor begins. -/
theorem generate_previews_sharedLogin :
    let g : Generator := ⟨(Draft.empty "Bank").toModel, .default⟩
    ∃ tests, g.Previews sharedLogin tests ∧ sharedLogin.leaves = [2, 3] ∧ sharedLogin.leaves.Nodup ∧
      (g.review sharedLogin .quiet 2).result.toOption = some "\n\t\tBank.login();\n\t\tBank.logout();" ∧
      (g.review sharedLogin .quiet 3).result.toOption = some "\n\t\tBank.login();" ∧
      (g.generate sharedLogin .quiet "BankTest").result = .ok
        ⟨"BankTest", [⟨"BankTest.java", Layout.java.header ⟨"BankTest", "Bank"⟩ ++
          String.join (tests.map fun test => Layout.java.testCase ⟨"BankTest", "Bank"⟩ test.id test.body) ++
            "\x7d\n"⟩]⟩ :=
  have ⟨tests, previews, nodup, _, result⟩ :=
    generate_previews ⟨(Draft.empty "Bank").toModel, .default⟩ reachable_sharedLogin "BankTest"
  ⟨tests, previews, by decide +kernel, nodup, by decide +kernel, by decide +kernel, result⟩

end Generator

end TestScribe

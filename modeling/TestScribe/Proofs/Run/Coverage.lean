import TestScribe.Proofs.Run.Bodies
import TestScribe.Proofs.Tree.Paths

/-!
# What the tests cover

The paths to the leaves cover the tree, and none of them starts another. As the body of a test is written along the
path to its leaf, the code of a step stands in the tests that pass through it and in no others (`generate_covers`).
-/

namespace TestScribe

open ExecutionTree

namespace Generator

variable {tree : ExecutionTree}

/-- The tests that a run gives are written along the paths to the leaves. -/
theorem exists_tests_of_generate (g : Generator) (h : tree.WellFormed) (name : String) :
    ∃ tests : List TestCase, (g.generate tree .quiet name).result = .ok (.assemble g.model g.options name tests) ∧
      tests.length = tree.leaves.length ∧
      ∀ (k : Nat) leaf path, tree.leaves[k]? = some leaf → tree.pathTo leaf = .ok path →
        tests[k]?.map TestCase.body = some ((g.writer tree).body (path.filterMap tree.node?)) := by
  refine ⟨_, result_generate h .quiet name, ?_, fun k leaf path hleaf hpath => ?_⟩
  · rw [StepWriter.testCases_clear, List.length_mapIdx]
  · obtain ⟨-, rfl⟩ := WellFormed.pathTo_eq_ok_iff.mp hpath
    rw [StepWriter.testCases_clear, List.getElem?_mapIdx, hleaf]
    rfl

/-- A path is refused just where the node is unknown, and is else the one way from below the root to the node, which
for the root is empty; the loop from parent to parent that finds it ends. The paths to the leaves hold every node but
the root, none of them starts another, and a node is on the path to a leaf just where it is the leaf or above it,
the root apart. The tests are written along these paths: after its tag, a test is the code of the nodes on the path
to its leaf. -/
theorem generate_covers (g : Generator) (h : tree.Reachable) (name : String) :
    (∀ id, tree.size ≤ id → tree.pathTo id = .error (.unknownNode id)) ∧
      (∀ id, id < tree.size → ∃ path, tree.pathTo id = .ok path ∧
        (∀ ids, tree.Climbs id ids ↔ ids = path.reverse) ∧ ∀ path', tree.LeadsTo path' id ↔ path' = path) ∧
      tree.pathTo root = .ok [] ∧
      (∀ id, id ≠ root → id < tree.size →
        ∃ leaf ∈ tree.leaves, ∃ path, tree.pathTo leaf = .ok path ∧ id ∈ path) ∧
      (∀ leaf ∈ tree.leaves, ∀ leaf' ∈ tree.leaves, ∀ path path', tree.pathTo leaf = .ok path →
        tree.pathTo leaf' = .ok path' → path <+: path' → leaf = leaf') ∧
      (∀ leaf ∈ tree.leaves, ∀ path, tree.pathTo leaf = .ok path →
        ∀ id, id ∈ path ↔ id ≠ root ∧ (id = leaf ∨ Relation.TransGen tree.IsChild id leaf)) ∧
      ∃ tests : List TestCase, (g.generate tree .quiet name).result = .ok (.assemble g.model g.options name tests) ∧
        tests.length = tree.leaves.length ∧
        ∀ (k : Nat) leaf path, tree.leaves[k]? = some leaf → tree.pathTo leaf = .ok path →
          tests[k]?.map TestCase.body = some ((g.writer tree).body (path.filterMap tree.node?)) := by
  have hwf := h.wellFormed
  have hroot : root < tree.size := hwf.size_pos
  refine ⟨fun _ => WellFormed.pathTo_of_unknown, fun id hid => ?_, ?_, fun id hne hid => ?_,
    fun leaf hleaf leaf' hleaf' path path' hpath hpath' hstarts => ?_, fun leaf hleaf path hpath id => ?_,
    exists_tests_of_generate g hwf name⟩
  · obtain ⟨hleads, hclimbs⟩ := hwf.leadsTo_ancestry hid hid
    refine ⟨_, WellFormed.pathTo_ok hid, fun ids => ⟨fun hclimbs' => hclimbs'.unique hclimbs, ?_⟩,
      fun path' => ⟨fun hleads' => hwf.leadsTo_unique hleads' hleads, ?_⟩⟩
    · rintro rfl
      exact hclimbs
    · rintro rfl
      exact hleads
  · have hleads := (hwf.leadsTo_ancestry hroot hroot).1
    rw [WellFormed.pathTo_ok hroot, hwf.leadsTo_unique hleads (leadsTo_nil_iff.mpr rfl)]
  · obtain ⟨leaf, hleaf, hmem⟩ := List.mem_flatMap.mp (hwf.mem_path_iff.mpr ⟨hne, hid⟩)
    exact ⟨leaf, hleaf, _, WellFormed.pathTo_ok (hwf.mem_leaves_iff.mp hleaf).2.1, hmem⟩
  · obtain ⟨-, rfl⟩ := WellFormed.pathTo_eq_ok_iff.mp hpath
    obtain ⟨-, rfl⟩ := WellFormed.pathTo_eq_ok_iff.mp hpath'
    exact hwf.eq_of_path_prefix hleaf hleaf' hstarts
  · obtain ⟨hlt, rfl⟩ := WellFormed.pathTo_eq_ok_iff.mp hpath
    rw [hwf.mem_ancestry_iff hlt hlt, ExecutionTree.Under, Relation.reflTransGen_iff_eq_or_transGen, eq_comm]

/-- Both tests pass through the login. The second goes on to the constructor, which is on its path and has no code. -/
theorem generate_covers_sharedLogin :
    let g : Generator := ⟨(Draft.empty "Bank").toModel, .default⟩
    (sharedLogin.size ≤ 4 ∧ sharedLogin.pathTo 4 = .error (.unknownNode 4)) ∧
      (3 < sharedLogin.size ∧ sharedLogin.pathTo 3 = .ok [1, 3] ∧ sharedLogin.Climbs 3 [3, 1] ∧
        sharedLogin.LeadsTo [1, 3] 3 ∧ ¬ sharedLogin.LeadsTo [3] 3) ∧
      (sharedLogin.leaves = [2, 3] ∧ sharedLogin.pathTo 2 = .ok [1, 2] ∧
        Relation.TransGen sharedLogin.IsChild 1 2 ∧ ¬ Relation.TransGen sharedLogin.IsChild 3 2) ∧
      ∃ tests : List TestCase, (g.generate sharedLogin .quiet "BankTest").result =
          .ok (.assemble g.model g.options "BankTest" tests) ∧
        tests.map TestCase.body = ["\n\t\tBank.login();\n\t\tBank.logout();", "\n\t\tBank.login();"] := by
  intro g
  obtain ⟨hunknown, hpath, -, -, -, hmem, tests, hresult, hlength, hbody⟩ :=
    generate_covers g reachable_sharedLogin "BankTest"
  have hsize : sharedLogin.size = 4 := by decide +kernel
  have hleaves : sharedLogin.leaves = [2, 3] := by decide +kernel
  have hpath2 : sharedLogin.pathTo 2 = .ok [1, 2] := by decide +kernel
  have hpath3 : sharedLogin.pathTo 3 = .ok [1, 3] := by decide +kernel
  have hlt : 3 < sharedLogin.size := by rw [hsize]; decide
  obtain ⟨path, hpath', hclimbs, hleads⟩ := hpath 3 hlt
  obtain rfl : [1, 3] = path := Except.ok.inj (hpath3.symm.trans hpath')
  have habove := hmem 2 (by rw [hleaves]; decide) [1, 2] hpath2
  have hlogout : tests[0]?.map TestCase.body = some "\n\t\tBank.login();\n\t\tBank.logout();" :=
    (hbody 0 2 [1, 2] (by rw [hleaves]; rfl) hpath2).trans (by decide +kernel)
  have hnew : tests[1]?.map TestCase.body = some "\n\t\tBank.login();" :=
    (hbody 1 3 [1, 3] (by rw [hleaves]; rfl) hpath3).trans (by decide +kernel)
  refine ⟨⟨Nat.le_of_eq hsize, hunknown 4 (Nat.le_of_eq hsize)⟩,
    ⟨hlt, hpath3, (hclimbs _).mpr rfl, (hleads _).mpr rfl, fun hshort => ?_⟩, ⟨hleaves, hpath2, ?_, fun hbelow => ?_⟩,
    tests, hresult, ?_⟩
  · exact absurd ((hleads _).mp hshort) (by decide)
  · exact ((habove 1).mp (by decide)).2.resolve_left (by decide)
  · exact absurd ((habove 3).mpr ⟨by decide, .inr hbelow⟩) (by decide)
  · rw [hleaves] at hlength
    refine List.ext_getElem? fun k => ?_
    rw [List.getElem?_map]
    match k with
    | 0 => exact hlogout
    | 1 => exact hnew
    | k + 2 => rw [List.getElem?_eq_none (by rw [hlength]; simp)]; rfl

end Generator

end TestScribe

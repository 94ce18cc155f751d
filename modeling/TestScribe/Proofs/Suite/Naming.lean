import Mathlib.Data.List.TakeWhile
import TestScribe.Proofs.Run.Generation
import TestScribe.Proofs.Text.Decimal
import TestScribe.Proofs.Tree.Operations

/-!
# The names of tests and files

The id of a test begins with its number, and whatever follows does not begin with a digit, so tests of different
numbers have different ids, free as the test-case ids of a document are (`Previews.nodup_ids`). The file of a test
is named after its id, and the index has a shorter name than all of these, so a suite finds each of its files by
name (`generate_named`).
-/

namespace TestScribe

open ExecutionTree

/-! ### Ids -/

/-- The digits of the number of a test can be read off its id. -/
theorem Options.takeWhile_isDigit_testId {o : Options} {t : ExecutionTree} {number : Nat} {leaf : NodeId}
    {id : String} (h : o.testId t number leaf = .ok id) :
    id.toList.takeWhile Char.isDigit = (toString number).toList := by
  have hdigits : ∀ c ∈ (toString number).toList, c.isDigit = true := fun c hc => isDigit_of_mem_toString hc
  rw [Options.testId] at h
  split at h
  · split at h
    · next n _ =>
      cases h
      -- The digits end at the separator, so the test-case id does not come into it.
      rw [String.toList_append, String.toList_append, List.append_assoc, List.takeWhile_append_of_pos hdigits]
      show _ ++ List.takeWhile Char.isDigit ('_' :: n.testCaseId.toList) = _
      rw [List.takeWhile_cons_of_neg (by decide), List.append_nil]
    · cases h
  · cases h
    exact List.takeWhile_eq_self_iff.mpr hdigits

/-- Tests of different numbers have different ids, whatever leaves they end at. -/
theorem Options.testId_inj {o : Options} {t t' : ExecutionTree} {number number' : Nat} {leaf leaf' : NodeId}
    {id : String} (h : o.testId t number leaf = .ok id) (h' : o.testId t' number' leaf' = .ok id) :
    number = number' := by
  have hnumbers := (takeWhile_isDigit_testId h).symm.trans (takeWhile_isDigit_testId h')
  rw [← ofDigitChars_toString number, hnumbers, ofDigitChars_toString]

theorem Generator.Previews.nodup_ids {g : Generator} {tree : ExecutionTree} {tests : List TestCase}
    (h : g.Previews tree tests) : (tests.map TestCase.id).Nodup := by
  have hid : ∀ k (hk : k < tests.length), ∃ leaf, g.options.testId tree (k + 1) leaf = .ok tests[k].id := by
    intro k hk
    have hleaf := List.getElem?_eq_getElem (h.length_eq ▸ hk)
    obtain ⟨id, body, htest, hid, -⟩ := h.test k _ hleaf
    rw [List.getElem?_eq_getElem hk, Option.some.injEq] at htest
    rw [htest]
    exact ⟨_, hid⟩
  refine List.pairwise_map.mpr (List.pairwise_iff_getElem.mpr fun i j hi hj hlt heq => ?_)
  obtain ⟨leaf, htest⟩ := hid i hi
  obtain ⟨leaf', htest'⟩ := hid j hj
  rw [heq] at htest
  exact Nat.ne_of_lt hlt (Nat.succ.inj (Options.testId_inj htest htest'))

/-! ### Files -/

namespace Suite

variable {s : Suite} {f : SuiteFile} {name : String}

/-- Where no two files have the same name, looking for a name finds the file that has it. -/
theorem file?_eq_some_iff (h : (s.files.map SuiteFile.name).Nodup) :
    s.file? name = some f ↔ f ∈ s.files ∧ f.name = name := by
  constructor
  · intro hfind
    exact ⟨List.mem_of_find?_eq_some hfind, by simpa using List.find?_some hfind⟩
  · rintro ⟨hf, rfl⟩
    obtain ⟨before, after, hfiles⟩ := List.append_of_mem hf
    rw [hfiles, List.map_append, List.map_cons, List.nodup_append] at h
    refine List.find?_eq_some_iff_append.mpr ⟨beq_self_eq_true _, before, after, hfiles, fun f' hf' => ?_⟩
    have hne := h.2.2 f'.name (List.mem_map_of_mem hf') f.name List.mem_cons_self
    simpa using hne

/-- The files are named apart when the tests are: the name of the index is the only one without an id. -/
theorem nodup_names_assemble {tests : List TestCase} (h : (tests.map TestCase.id).Nodup) (m : Model)
    (o : Options) (name : String) : ((assemble m o name tests).files.map SuiteFile.name).Nodup := by
  rw [assemble]
  split
  · let fileName (test : TestCase) := name ++ "_" ++ test.id ++ "." ++ o.language.fileExtension
    show List.Nodup (List.map SuiteFile.name (List.map _ (tests.map _) ++ [_]))
    rw [List.map_append, List.map_map, List.map_map]
    show ((tests.map fileName) ++ [name ++ "." ++ o.language.fileExtension]).Nodup
    refine List.nodup_append.mpr ⟨?_, List.pairwise_singleton _ _, fun x hx y hy heq => ?_⟩
    · refine List.pairwise_map.mpr ((List.pairwise_map.mp h).imp fun hne heq => hne ?_)
      rwa [String.append_left_inj, String.append_left_inj, String.append_right_inj] at heq
    · -- The index has a shorter name than the file of any test.
      obtain ⟨test, -, rfl⟩ := List.mem_map.mp hx
      rw [List.mem_singleton.mp hy] at heq
      have hlength := congrArg String.length heq
      simp only [fileName, String.length_append] at hlength
      have hseparator : "_".length = 1 := rfl
      omega
  · exact List.pairwise_singleton _ _

end Suite

namespace Generator

variable {tree : ExecutionTree}

/-- The tests of a run have different ids, whatever the document calls them, and the files of its suite have
different names. So a suite finds each of its files by name, and finds no other file. -/
theorem generate_named (g : Generator) (h : tree.Reachable) (name : String) :
    ∃ tests, g.Previews tree tests ∧ (tests.map TestCase.id).Nodup ∧
      (g.generate tree .quiet name).result = .ok (.assemble g.model g.options name tests) ∧
      ∀ signal suite, (g.generate tree signal name).result = .ok suite →
        suite = .assemble g.model g.options name tests ∧ (suite.files.map SuiteFile.name).Nodup ∧
        ∀ fileName f, suite.file? fileName = some f ↔ f ∈ suite.files ∧ f.name = fileName := by
  have hw := h.wellFormed
  have hpreviews := previews_testCases (g := g) hw
  have hids := hpreviews.nodup_ids
  refine ⟨_, hpreviews, hids, ?_, fun signal suite hsuite => ?_⟩
  · rw [generate_eq hw]
    rfl
  · rw [generate_eq hw, Report.finish] at hsuite
    dsimp only at hsuite
    split at hsuite
    · cases hsuite
      have hnames := Suite.nodup_names_assemble hids g.model g.options name
      exact ⟨rfl, hnames, fun fileName f => Suite.file?_eq_some_iff hnames⟩
    · cases hsuite

/-- Test-case ids may be repeated or empty, or begin like the id of another test. -/
theorem generate_named_repeated :
    let login := Step.firing (.named "login")
    let tree := (rooted .standard (.constructor "new") ∅).afterAll [.addChild 0 login (some "a"),
      .addChild 0 login (some ""), .addChild 0 login (some "a"), .addChild 0 login (some "1_a")]
    let g : Generator := ⟨(Draft.empty "Bank").toModel, { Options.default with separateTestFiles := true }⟩
    let run := (g.generate tree .quiet "BankTest").result
    tree.Reachable ∧
      run.toOption.map (fun suite => suite.files.map SuiteFile.name) = some ["BankTest_1_a.java",
        "BankTest_2_.java", "BankTest_3_a.java", "BankTest_4_1_a.java", "BankTest.java"] ∧
      ∃ suite, run = .ok suite ∧ (suite.files.map SuiteFile.name).Nodup ∧
        ∀ f ∈ suite.files, suite.file? f.name = some f := by
  intro login tree g run
  have htree : tree.Reachable := (Reachable.rooted _ _ _).afterAll _
  obtain ⟨tests, -, -, hrun, hsuite⟩ := generate_named g htree "BankTest"
  obtain ⟨-, hnames, hfile⟩ := hsuite .quiet _ hrun
  exact ⟨htree, by decide +kernel, _, hrun, hnames, fun f hf => (hfile f.name f).mpr ⟨hf, rfl⟩⟩

end Generator

end TestScribe

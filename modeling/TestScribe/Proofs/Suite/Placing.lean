import TestScribe.Proofs.Run.Saving
import TestScribe.Proofs.Suite.Naming
import TestScribe.Proofs.Tree.Building

/-!
# Where the files of a suite go

A test-case id may hold any text, and with separate files and sequence indices the ids of the leaves get into the
names of files. As long as none of these holds a slash (`KeepsToDirectory`), no name of a file does, and what is
saved is right in the directory of the destination (`save_placed`). Nothing keeps other ids from leading elsewhere
(`save_escapes`).
-/

namespace TestScribe

open ExecutionTree

/-! ### The suite of a destination -/

theorem not_mem_intercalate {c : Char} {separator : String} {pieces : List String} (hc : c ∉ separator.toList)
    (h : ∀ piece ∈ pieces, c ∉ piece.toList) : c ∉ (separator.intercalate pieces).toList := by
  rw [String.toList_intercalate]
  induction pieces with
  | nil => simp
  | cons p ps ih =>
    obtain ⟨hp, hps⟩ := List.forall_mem_cons.mp h
    cases ps with
    | nil => simpa using hp
    | cons q qs =>
      have hrest := ih hps
      rw [List.map_cons, List.map_cons, List.intercalate_cons_cons, ← List.map_cons]
      simp only [List.mem_append, not_or]
      exact ⟨⟨hp, hc⟩, hrest⟩

namespace Path

variable {p : Path} {name : String}

theorem not_mem_names (p : Path) : ∀ name ∈ p.names.1 :: p.names.2, '/' ∉ name.toList := by
  have hsplit : ∀ piece ∈ splitText '/' p, '/' ∉ piece.toList := fun _ => not_mem_of_mem_splitText
  rw [names]
  cases h : splitText '/' p with
  | nil => simp
  | cons first rest =>
    rw [h] at hsplit
    obtain ⟨hfirst, hrest⟩ := List.forall_mem_cons.mp hsplit
    refine List.forall_mem_cons.mpr ⟨hfirst, fun name hname => hrest name ?_⟩
    exact List.mem_reverse.mp ((List.dropWhile_sublist _).subset (List.mem_reverse.mp hname))

theorem not_mem_fileName (h : p.fileName = some name) : '/' ∉ name.toList := by
  obtain ⟨hfirst, hrest⟩ := List.forall_mem_cons.mp (not_mem_names p)
  rw [fileName] at h
  dsimp only at h
  split at h
  · cases h
  · next last hlast =>
    cases h
    exact hrest name (List.mem_of_getLast? hlast)
  · split at h
    · cases h
    · cases h
      exact hfirst

theorem not_mem_fileStem (h : p.fileStem = some name) : '/' ∉ name.toList := by
  obtain ⟨file, hfile, rfl⟩ := Option.map_eq_some_iff.mp h
  have hslash := not_mem_fileName hfile
  split
  · exact hslash
  · exact hslash
  · refine not_mem_intercalate (by decide) fun piece hpiece hmem => hslash ?_
    exact mem_of_mem_splitText (List.dropLast_subset _ hpiece) hmem

end Path

theorem not_mem_suiteName (destination : Path) : '/' ∉ (suiteName destination).toList := by
  rw [suiteName]
  cases h : destination.fileStem with
  | none => decide
  | some stem => exact Path.not_mem_fileStem h

/-! ### Ids and names of files -/

theorem not_mem_toString (number : Nat) : '/' ∉ (toString number).toList :=
  fun h => absurd (isDigit_of_mem_toString h) (by decide)

theorem not_mem_append {c : Char} {s s' : String} :
    c ∉ (s ++ s').toList ↔ c ∉ s.toList ∧ c ∉ s'.toList := by
  rw [String.toList_append, List.mem_append, not_or]

theorem Language.not_mem_fileExtension (l : Language) : '/' ∉ ("." ++ l.fileExtension).toList := by
  cases l <;> decide

theorem Options.not_mem_testId_iff {o : Options} {t : ExecutionTree} {number : Nat} {leaf : NodeId} {n : Node}
    {id : String} (hn : t.node? leaf = some n) (h : o.testId t number leaf = .ok id) :
    '/' ∉ id.toList ↔ (o.includeSequenceIndices = true → '/' ∉ n.testCaseId.toList) := by
  rw [testId, hn] at h
  split at h
  · next hindices =>
    cases h
    rw [not_mem_append, not_mem_append]
    have hfront : '/' ∉ (toString number).toList ∧ '/' ∉ "_".toList := ⟨not_mem_toString number, by decide⟩
    exact ⟨fun h _ => h.2, fun h => ⟨hfront, h hindices⟩⟩
  · next hindices =>
    cases h
    exact ⟨fun _ hyes => absurd hyes hindices, fun _ => not_mem_toString number⟩

theorem Generator.Previews.not_mem_ids_iff {g : Generator} {tree : ExecutionTree} {tests : List TestCase}
    (h : g.Previews tree tests) (hw : tree.WellFormed) :
    (∀ test ∈ tests, '/' ∉ test.id.toList) ↔ (g.options.includeSequenceIndices = true →
      ∀ leaf ∈ tree.leaves, ∀ n, tree.node? leaf = some n → '/' ∉ n.testCaseId.toList) := by
  constructor
  · intro hids hindices leaf hleaf n hn
    obtain ⟨k, hk⟩ := List.getElem?_of_mem hleaf
    obtain ⟨id, body, htest, hid, -⟩ := h.test k leaf hk
    exact (Options.not_mem_testId_iff hn hid).mp (hids _ (List.mem_of_getElem? htest)) hindices
  · intro hleaves test hmem
    obtain ⟨k, hk⟩ := List.getElem?_of_mem hmem
    have hlt : k < tree.leaves.length := h.length_eq ▸ (List.getElem?_eq_some_iff.mp hk).1
    have hleaf := List.getElem?_eq_getElem hlt
    obtain ⟨id, body, htest, hid, -⟩ := h.test k _ hleaf
    obtain rfl := Option.some.inj (hk.symm.trans htest)
    obtain ⟨n, hn⟩ := exists_node (hw.mem_leaves_iff.mp (List.mem_of_getElem? hleaf)).2.1
    exact (Options.not_mem_testId_iff hn hid).mpr fun hindices =>
      hleaves hindices _ (List.mem_of_getElem? hleaf) n hn

theorem Suite.not_mem_names_assemble_iff {name : String} (hname : '/' ∉ name.toList) (m : Model) (o : Options)
    (tests : List TestCase) :
    (∀ f ∈ (assemble m o name tests).files, '/' ∉ f.name.toList) ↔
      (o.separateTestFiles = true → ∀ test ∈ tests, '/' ∉ test.id.toList) := by
  have hextension := o.language.not_mem_fileExtension
  have hmain : '/' ∉ (name ++ "." ++ o.language.fileExtension).toList := by
    rw [String.append_assoc]
    exact not_mem_append.mpr ⟨hname, hextension⟩
  have hfile (test : TestCase) :
      '/' ∉ (separateFile m o.language name test).2.name.toList ↔ '/' ∉ test.id.toList := by
    show '/' ∉ (name ++ "_" ++ test.id ++ "." ++ o.language.fileExtension).toList ↔ _
    rw [String.append_assoc, not_mem_append, not_mem_append, not_mem_append]
    exact ⟨fun h => h.1.2, fun h => ⟨⟨⟨hname, by decide⟩, h⟩, hextension⟩⟩
  rw [assemble]
  split
  · next hseparate =>
    simp only [List.forall_mem_append, List.forall_mem_map, List.forall_mem_singleton, hfile]
    exact ⟨fun h _ => h.1, fun h => ⟨h hseparate, hmain⟩⟩
  · next hseparate =>
    exact ⟨fun _ hyes => absurd hyes hseparate, fun _ => List.forall_mem_singleton.mpr hmain⟩

/-- An id that a document does not give is made of positions and of the id of a parent. -/
theorem TreeDocument.not_mem_testCaseId {d : TreeDocument} {model : Model} {t : ExecutionTree}
    (h : d.build model = .ok t) (hids : ∀ s ∈ d.steps, ∀ id, s.testCaseId = some id → '/' ∉ id.toList)
    {i : NodeId} {n : Node} (hn : t.node? i = some n) (hi : i ≠ root) : '/' ∉ n.testCaseId.toList := by
  have hreproduced := reproduced_of_build h
  have hw := (reachable_build h).wellFormed
  induction i using Nat.strongRecOn generalizing n with
  | ind i ih =>
    obtain ⟨k, rfl⟩ := Nat.exists_eq_succ_of_ne_zero hi
    have hlt := lt_size hn
    rw [hreproduced.size] at hlt
    obtain ⟨s, hs⟩ : ∃ s, d.steps[k]? = some s := ⟨_, List.getElem?_eq_getElem (Nat.lt_of_succ_lt_succ hlt)⟩
    obtain ⟨n', parent, p, j, hn', hparent, hp, -, hcarried⟩ := hreproduced.carried k s hs
    obtain rfl := Option.some.inj (hn.symm.trans hn')
    rw [hcarried.testCaseId]
    cases hid : s.testCaseId with
    | some id => exact hids s (List.mem_of_getElem? hs) id hid
    | none =>
      rw [Option.getD_none, Node.childTestCaseId]
      split
      · exact not_mem_toString _
      · next hroot =>
        have hbefore : parent < k.succ := hw.parentOf_lt _ _ (by rw [parentOf, hn]; exact hparent)
        have hne : parent ≠ root := by
          rintro rfl
          obtain ⟨r, hr, hnone, -⟩ := hreproduced.root
          obtain rfl := Option.some.inj (hp.symm.trans hr)
          exact hroot (by rw [Node.isRoot, hnone]; rfl)
        rw [not_mem_append, not_mem_append]
        exact ⟨⟨ih parent hbefore hp hne, by decide⟩, not_mem_toString _⟩

/-! ### Places on a disk -/

/-- The path leads to a place right in the directory. -/
def Disk.RightIn {room : Room} (d : Disk room) (directory p : Path) : Prop :=
  ∃ there name, d.follow (d.start directory) (splitText '/' directory) = some there ∧ '/' ∉ name.toList ∧
    d.locate p = some (Location.child there name)

theorem Suite.rightIn_of_write {room : Room} {suite : Suite} {directory : Path} {d d' : Disk room} {paths : List Path}
    (hnames : ∀ f ∈ suite.files, '/' ∉ f.name.toList)
    (h : (suite.write directory : StateM (Disk room) _).run d = (.ok paths, d')) :
    ∀ p ∈ paths, d'.RightIn directory p := by
  have hrun := suite.diskOutcome_write directory d
  rw [h] at hrun
  rcases hrun with ⟨-, hrun⟩ | ⟨-, hrun⟩
  · cases hrun
  · cases hrun with
    | written hwritten =>
      refine List.forall_mem_map.mpr fun f hf => ?_
      obtain ⟨l, hl, -⟩ := hwritten.exists_locate hf
      rw [← hwritten.sameKinds.locate] at hl
      obtain ⟨there, hthere, rfl⟩ := Disk.exists_child_of_locate_join (hnames f hf) hl
      exact ⟨there, f.name, hthere, hnames f hf, hl⟩

namespace Generator

variable {g : Generator} {tree : ExecutionTree}

/-- No test-case id with a slash gets into the name of a file. -/
def KeepsToDirectory (g : Generator) (tree : ExecutionTree) : Prop :=
  g.options.separateTestFiles = true → g.options.includeSequenceIndices = true →
    ∀ leaf ∈ tree.leaves, ∀ n, tree.node? leaf = some n → '/' ∉ n.testCaseId.toList

theorem not_mem_names_iff (h : tree.WellFormed) {signal : Signal} {name : String} {suite : Suite}
    (hname : '/' ∉ name.toList) (hsuite : (g.generate tree signal name).result = .ok suite) :
    (∀ f ∈ suite.files, '/' ∉ f.name.toList) ↔ g.KeepsToDirectory tree := by
  rw [generate_eq h, Report.finish] at hsuite
  dsimp only at hsuite
  split at hsuite
  · cases hsuite
    rw [Suite.not_mem_names_assemble_iff hname, (previews_testCases h).not_mem_ids_iff h, KeepsToDirectory]
  · cases hsuite

theorem write_of_save {σ : Type} [Storage (StateM σ)] {signal : Signal} {destination : Path} {d d' : σ}
    {r : Report (List Path)} {paths : List Path}
    (h : (g.save tree signal destination : StateM σ _).run d = (r, d')) (hok : r.result = .ok paths) :
    ∃ suite, (g.generate tree signal (suiteName destination)).result = .ok suite ∧
      (suite.write (suiteDirectory destination) : StateM σ _).run d = (.ok paths, d') := by
  rw [save_run] at h
  dsimp only at h
  split at h
  · next suite hsuite =>
    rcases hwrite : (suite.write (suiteDirectory destination) : StateM σ _).run d with ⟨result, d''⟩
    rw [hwrite] at h
    obtain ⟨rfl, rfl⟩ := Prod.mk.inj h
    obtain rfl : result = .ok paths := hok
    exact ⟨suite, hsuite, hwrite⟩
  · obtain ⟨rfl, rfl⟩ := Prod.mk.inj h
    cases hok

/-- For the tree of a document: when no test-case id that the document gives holds a slash, none of the ids that
get into names of files does. Exactly when none of these does, the names of the files of each suite hold no slash,
and then each path that saving gives leads to a place right in the directory of the destination. -/
theorem save_placed {d : TreeDocument} {model : Model} (h : d.build model = .ok tree) (options : Options) :
    let g : Generator := ⟨model, options⟩
    ((∀ s ∈ d.steps, ∀ id, s.testCaseId = some id → '/' ∉ id.toList) → g.KeepsToDirectory tree) ∧
      (∀ signal name suite, '/' ∉ name.toList → (g.generate tree signal name).result = .ok suite →
        ((∀ f ∈ suite.files, '/' ∉ f.name.toList) ↔ g.KeepsToDirectory tree)) ∧
      (g.KeepsToDirectory tree → ∀ signal destination (room : Room) (disk : Disk room),
        let run := (g.save tree signal destination : StateM (Disk room) _).run disk
        ∀ paths, run.1.result = .ok paths → ∀ p ∈ paths, run.2.RightIn (suiteDirectory destination) p) := by
  intro g
  have hw := (TreeDocument.reachable_build h).wellFormed
  refine ⟨fun hids _ _ leaf hleaf n hn => ?_, fun signal name suite hname hsuite => ?_, ?_⟩
  · exact TreeDocument.not_mem_testCaseId h hids hn (hw.mem_leaves_iff.mp hleaf).1
  · exact not_mem_names_iff hw hname hsuite
  · intro hkeeps signal destination room disk run paths hok
    obtain ⟨suite, hsuite, hwrite⟩ := write_of_save (rfl : run = (run.1, run.2)) hok
    have hnames := (not_mem_names_iff hw (not_mem_suiteName destination) hsuite).mpr hkeeps
    exact Suite.rightIn_of_write hnames hwrite

/-- The id of the leaf is made from the one that the document gives its parent. -/
theorem save_placed_nested :
    let step (id : Option String) : StepDocument := ⟨"login", none, none, ∅, false, id, [], []⟩
    let model := ((Draft.empty "Bank").declare [.transition (.named "login")]).toModel
    let d : TreeDocument := ⟨.standard, ∅, [.node (step (some "first")) [.node (step none) []]]⟩
    let tree := (rooted .standard (.constructor "new") ∅).afterAll
      [.addChild 0 (.firing (.named "login")) (some "first"), .addChild 1 (.firing (.named "login")) none]
    let g : Generator := ⟨model, { Options.default with separateTestFiles := true }⟩
    let disk : Disk := ⟨"/home", [("/home", .directory)]⟩
    let run := (g.save tree .quiet "out/BankTest.java" : StateM Disk _).run disk
    d.build model = .ok tree ∧ g.KeepsToDirectory tree ∧
      run.1.result.toOption = some ["out/BankTest_1_first_1.java", "out/BankTest.java"] ∧
      ∀ paths, run.1.result = .ok paths → ∀ p ∈ paths, Disk.RightIn run.2 "out" p := by
  intro step model d tree g disk run
  have hbuild : d.build model = .ok tree := by decide +kernel
  have hplaced := save_placed hbuild { Options.default with separateTestFiles := true }
  have hkeeps : g.KeepsToDirectory tree := hplaced.1 (by decide +kernel)
  exact ⟨hbuild, hkeeps, by decide +kernel, hplaced.2.2 hkeeps .quiet "out/BankTest.java" .ample disk⟩

/-- The id leads through a directory that is there, and back up out of the destination's. -/
theorem save_escapes :
    let step : StepDocument := ⟨"login", none, none, ∅, false, some "a/../../b", [], []⟩
    let model := ((Draft.empty "Bank").declare [.transition (.named "login")]).toModel
    let d : TreeDocument := ⟨.standard, ∅, [.node step []]⟩
    let tree := (rooted .standard (.constructor "new") ∅).afterAll
      [.addChild 0 (.firing (.named "login")) (some "a/../../b")]
    let g : Generator := ⟨model, { Options.default with separateTestFiles := true }⟩
    let disk : Disk := ⟨"/home", [("/home", .directory), ("/home/out", .directory),
      ("/home/out/T_1_a", .directory)]⟩
    let run := (g.save tree .quiet "out/T.java" : StateM Disk _).run disk
    d.build model = .ok tree ∧
      (g.generate tree .quiet "T").result.toOption.map (fun suite => suite.files.map SuiteFile.name) =
        some ["T_1_a/../../b.java", "T.java"] ∧
      run.1.result.toOption = some ["out/T_1_a/../../b.java", "out/T.java"] ∧
      run.2.locate "out/T_1_a/../../b.java" = some "/home/b.java" ∧
      (Disk.entry? run.2 "/home/b.java").isSome = true := by
  decide +kernel

end Generator

end TestScribe

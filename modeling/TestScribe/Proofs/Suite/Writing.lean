import Mathlib.Data.List.Nodup
import TestScribe.Proofs.Storage.Directories
import TestScribe.Suite.Writer

/-!
# Writing suites

On any storage, the writing of a suite gives the paths of its files or the path of one thing that failed
(`writeOutcome_write`). On a disk, `Written` is what the loop over the files keeps; of a file that was opened and
could not be written only `Opened` holds, but that is enough to know what is left when the files of a failed run are
removed (`Without`). Either all files of a suite are there or none of them is (`write_allOrNothing`), but what stood
in the place of a file that was opened is lost with it (`write_error_loses_file`, `write_error_keeps_files`).
-/

namespace TestScribe

/-! ### On any storage -/

section

variable {σ : Type} [Storage (StateM σ)]

namespace Suite

theorem write_run (suite : Suite) (directory : Path) (s : σ) :
    (suite.write directory : StateM σ _).run s =
      match (Storage.makeDirectories directory : StateM σ Bool).run s with
      | (true, s) => (writeFiles directory [] suite.files : StateM σ _).run s
      | (false, s) => (.error (.destinationUnavailable directory), s) := by
  rw [write, StateT.run_bind]
  rcases (Storage.makeDirectories directory : StateM σ Bool).run s with ⟨_ | _, s⟩ <;> rfl

theorem writeFiles_cons_run (directory : Path) (written : List Path) (f : SuiteFile)
    (files : List SuiteFile) (s : σ) :
    (writeFiles directory written (f :: files) : StateM σ _).run s =
      match (Storage.writeFile (directory.join f.name) f.contents : StateM σ WriteResult).run s with
      | (.written, s) => (writeFiles directory (written ++ [directory.join f.name]) files : StateM σ _).run s
      | (.notCreated, s) =>
        (.error (.destinationUnavailable (directory.join f.name)),
          ((discard written : StateM σ Unit).run s).2)
      | (.notWritten, s) =>
        (.error (.notWritten (directory.join f.name)),
          ((discard (directory.join f.name :: written) : StateM σ Unit).run s).2) := by
  rw [writeFiles, StateT.run_bind]
  rcases (Storage.writeFile (directory.join f.name) f.contents : StateM σ WriteResult).run s
    with ⟨_ | _ | _, s⟩ <;> rfl

/-- What writing can give: the paths of the files in order, or the path of what could not be made. -/
inductive WriteOutcome (directory : Path) (files : List SuiteFile) : Except RunError (List Path) → Prop
  | written : WriteOutcome directory files (.ok (files.map fun f => directory.join f.name))
  | notMade (path : Path) : WriteOutcome directory files (.error (.destinationUnavailable path))
  | notWritten (path : Path) : WriteOutcome directory files (.error (.notWritten path))

theorem writeOutcome_writeFiles (directory : Path) (done files : List SuiteFile) (s : σ) :
    WriteOutcome directory (done ++ files)
      ((writeFiles directory (done.map fun f => directory.join f.name) files : StateM σ _).run s).1 := by
  induction files generalizing done s with
  | nil =>
    rw [List.append_nil]
    exact .written
  | cons f files ih =>
    rw [writeFiles_cons_run]
    split
    · next s' _ =>
      have hdone := ih (done ++ [f]) s'
      rwa [List.append_assoc, List.map_append] at hdone
    · exact .notMade _
    · exact .notWritten _

theorem writeOutcome_write (suite : Suite) (directory : Path) (s : σ) :
    WriteOutcome directory suite.files ((suite.write directory : StateM σ _).run s).1 := by
  rw [write_run]
  split
  · next s' _ => exact writeOutcome_writeFiles directory [] suite.files s'
  · exact .notMade directory

end Suite

end

/-! ### On a disk -/

section

variable {room : Room}

theorem makeDirectories_run (p : Path) (d : Disk room) :
    (Storage.makeDirectories p : StateM (Disk room) Bool).run d = d.makeDirectories p :=
  rfl

theorem writeFile_run (p : Path) (text : String) (d : Disk room) :
    (Storage.writeFile p text : StateM (Disk room) WriteResult).run d = d.writeFile p text :=
  rfl

theorem discard_run (paths : List Path) (d : Disk room) :
    (discard paths : StateM (Disk room) Unit).run d = ((), paths.foldl Disk.remove d) := by
  induction paths generalizing d with
  | nil => rfl
  | cons p paths ih => exact ih (d.remove p)

end

namespace Suite

variable {room : Room} {directory : Path} {d d' : Disk room} {done files : List SuiteFile} {f : SuiteFile}
  {l : Location}

/-- The disk after some files of a directory were opened for writing, whatever came of it. -/
structure Opened (directory : Path) (d : Disk room) (files : List SuiteFile) (d' : Disk room) : Prop where
  sameKinds : d.SameKinds d'
  outside : ∀ l, (∀ f ∈ files, d.locate (directory.join f.name) ≠ some l) → d'.entry? l = d.entry? l

/-- The disk after some files were written into a directory. -/
structure Written (directory : Path) (d : Disk room) (done : List SuiteFile) (d' : Disk room) : Prop
    extends Opened directory d done d' where
  /-- Each of the files could have been written first. -/
  result : ∀ f ∈ done, (d.writeFile (directory.join f.name) f.contents).1 = .written
  /-- A file that no other one overwrites is there, unless it went to a link. -/
  holds : ∀ f ∈ done, ∀ l, d.locate (directory.join f.name) = some l → d.entry? l ≠ some .full →
    (∀ g ∈ done, d.locate (directory.join g.name) = some l → g = f) → d'.entry? l = some (.file f.contents)

/-- The disk without some files of a directory. -/
structure Without (directory : Path) (d : Disk room) (gone : List SuiteFile) (d' : Disk room) : Prop where
  sameDirectories : d.SameDirectories d'
  entries : ∀ l, d'.entry? l =
    if ∃ f ∈ gone, d.locate (directory.join f.name) = some l then none else d.entry? l

/-- The files lead to different locations. -/
def Apart (directory : Path) (d : Disk room) (files : List SuiteFile) : Prop :=
  ∀ f ∈ files, ∀ g ∈ files, ∀ l,
    d.locate (directory.join f.name) = some l → d.locate (directory.join g.name) = some l → f = g

theorem apart_of_names (hnames : ∀ f ∈ files, '/' ∉ f.name.toList) (hnodup : (files.map SuiteFile.name).Nodup)
    (directory : Path) (d : Disk room) : Apart directory d files :=
  fun f hf g hg _ hfl hgl => List.inj_on_of_nodup_map hnodup hf hg
    (Disk.eq_of_locate_join (hnames f hf) (hnames g hg) hfl hgl)

namespace Opened

/-- Another file is opened. -/
theorem append (h : Opened directory d files d') (f : SuiteFile) :
    Opened directory d (files ++ [f]) (d'.writeFile (directory.join f.name) f.contents).2 := by
  refine ⟨h.sameKinds.trans (d'.sameKinds_writeFile _ _), fun l hl => ?_⟩
  obtain ⟨hfiles, hne⟩ := List.forall_mem_append.mp hl
  rw [d'.entry?_writeFile, h.sameKinds.locate, if_neg fun hat => hne f (List.mem_singleton_self f) hat.1,
    h.outside l hfiles]

/-- Removing the files that were opened leaves the first disk without them, whatever was written into them. -/
theorem without (h : Opened directory d files d') {gone : List SuiteFile} (hfiles : ∀ f ∈ files, f ∈ gone)
    (hfile : ∀ f ∈ gone, ∃ l, d.locate (directory.join f.name) = some l ∧ d.entry? l ≠ some .directory) :
    Without directory d gone ((gone.map fun f => directory.join f.name).foldl Disk.remove d') := by
  obtain ⟨hdirs, hentry⟩ := d'.removeAll (gone.map fun f => directory.join f.name)
  refine ⟨h.sameKinds.toSameDirectories.trans hdirs, fun l => ?_⟩
  rw [hentry]
  simp only [List.mem_map, exists_exists_and_eq_and, h.sameKinds.locate]
  by_cases hl : ∃ f ∈ gone, d.locate (directory.join f.name) = some l
  · obtain ⟨f, hf, hat⟩ := hl
    obtain ⟨l', hat', hdir⟩ := hfile f hf
    obtain rfl : l = l' := Option.some.inj (hat.symm.trans hat')
    rw [if_pos ⟨⟨f, hf, hat⟩, fun hc => hdir ((h.sameKinds.directory_iff l).mp hc)⟩, if_pos ⟨f, hf, hat⟩]
  · rw [if_neg hl, if_neg fun hc => hl hc.1]
    exact h.outside l fun f hf hat => hl ⟨f, hfiles f hf, hat⟩

end Opened

namespace Written

theorem nil (directory : Path) (d : Disk room) : Written directory d [] d :=
  ⟨⟨.refl d, fun _ _ => rfl⟩, by simp, by simp⟩

theorem append (h : Written directory d done d')
    (hf : (d'.writeFile (directory.join f.name) f.contents).1 = .written) :
    Written directory d (done ++ [f]) (d'.writeFile (directory.join f.name) f.contents).2 := by
  have hlocate := h.sameKinds.locate
  have hentry := d'.entry?_writeFile (directory.join f.name) f.contents
  refine ⟨h.toOpened.append f, ?_, ?_⟩
  · rw [h.sameKinds.writeFile_result] at hf
    exact List.forall_mem_append.mpr ⟨h.result, List.forall_mem_singleton.mpr hf⟩
  · intro g hg l hgl hfull hlast
    obtain ⟨hlastDone, hlastF⟩ := List.forall_mem_append.mp hlast
    by_cases hat : d.locate (directory.join f.name) = some l
    · -- The file went there, so it is the one.
      obtain rfl := hlastF f (List.mem_singleton_self f) hat
      obtain ⟨l', hl', hdir⟩ := Disk.exists_locate_of_created (by rw [hf]; nofun)
      obtain rfl : l = l' := Option.some.inj (hat.symm.trans ((hlocate _).symm.trans hl'))
      have hfull' : d'.entry? l ≠ some .full := fun hc => hfull ((h.sameKinds.full_iff l).mp hc)
      rw [hentry, if_pos ⟨hl', hdir, hfull'⟩, (Disk.takes_of_written hf hl').getD_cut hfull']
    · rw [hentry, hlocate, if_neg fun h => hat h.1]
      rcases List.mem_append.mp hg with hg | hg
      · exact h.holds g hg l hgl hfull hlastDone
      · rw [List.mem_singleton.mp hg] at hgl
        exact absurd hgl hat

theorem exists_locate (h : Written directory d done d') (hf : f ∈ done) :
    ∃ l, d.locate (directory.join f.name) = some l ∧ d.entry? l ≠ some .directory :=
  Disk.exists_locate_of_created (by rw [h.result f hf]; nofun)

theorem lookup (h : Written directory d files d') (hapart : Apart directory d files) (hf : f ∈ files) :
    d'.lookup (directory.join f.name) =
      if d.lookup (directory.join f.name) = some .full then some .full else some (.file f.contents) := by
  obtain ⟨l, hl, -⟩ := h.exists_locate hf
  rw [Disk.lookup, Disk.lookup, h.sameKinds.locate, hl, Option.bind_some, Option.bind_some]
  split
  · next hfull => exact (h.sameKinds.full_iff l).mpr hfull
  · next hfull => exact h.holds f hf l hl hfull fun g hg hgl => hapart g hg f hf l hgl hl

end Written

namespace Without

theorem outside {gone : List SuiteFile} (h : Without directory d gone d')
    (hl : ∀ f ∈ gone, d.locate (directory.join f.name) ≠ some l) : d'.entry? l = d.entry? l := by
  rw [h.entries, if_neg]
  rintro ⟨f, hf, hat⟩
  exact hl f hf hat

theorem of_file {gone : List SuiteFile} (h : Without directory d gone d') {text : String}
    (hl : d'.entry? l = some (.file text)) : d.entry? l = some (.file text) := by
  rw [h.entries] at hl
  split at hl
  · cases hl
  · exact hl

theorem lookup_of_mem {gone : List SuiteFile} (h : Without directory d gone d') (hf : f ∈ gone) :
    d'.lookup (directory.join f.name) = none := by
  rw [Disk.lookup, h.sameDirectories.locate]
  cases hl : d.locate (directory.join f.name) with
  | none => rfl
  | some l => rw [Option.bind_some, h.entries, if_pos ⟨f, hf, hl⟩]

theorem lookup_of_not_mem {gone : List SuiteFile} (h : Without directory d gone d')
    (hapart : Apart directory d files) (hgone : gone ⊆ files) (hf : f ∈ files) (hnot : f ∉ gone) :
    d'.lookup (directory.join f.name) = d.lookup (directory.join f.name) := by
  rw [Disk.lookup, h.sameDirectories.locate, Disk.lookup]
  cases hl : d.locate (directory.join f.name) with
  | none => rfl
  | some l =>
    refine h.outside fun g hg hat => hnot ?_
    rwa [hapart f hf g (hgone hg) l hl hat]

end Without

/-- What the writing of files gives, and what it leaves of a disk. -/
inductive DiskOutcome (directory : Path) (d : Disk room) (files : List SuiteFile) :
    Except RunError (List Path) → Disk room → Prop
  | written {d' : Disk room} (h : Written directory d files d') :
    DiskOutcome directory d files (.ok (files.map fun f => directory.join f.name)) d'
  | notCreated {before after : List SuiteFile} {f : SuiteFile} {d' : Disk room} (hfiles : files = before ++ f :: after)
    (hbefore : ∀ b ∈ before, (d.writeFile (directory.join b.name) b.contents).1 = .written)
    (hresult : (d.writeFile (directory.join f.name) f.contents).1 = .notCreated)
    (h : Without directory d before d') :
    DiskOutcome directory d files (.error (.destinationUnavailable (directory.join f.name))) d'
  | notWritten {before after : List SuiteFile} {f : SuiteFile} {d' : Disk room} (hfiles : files = before ++ f :: after)
    (hbefore : ∀ b ∈ before, (d.writeFile (directory.join b.name) b.contents).1 = .written)
    (hresult : (d.writeFile (directory.join f.name) f.contents).1 = .notWritten)
    (h : Without directory d (f :: before) d') :
    DiskOutcome directory d files (.error (.notWritten (directory.join f.name))) d'

theorem diskOutcome_writeFiles (h : Written directory d done d') (files : List SuiteFile) :
    let run := (writeFiles directory (done.map fun f => directory.join f.name) files : StateM (Disk room) _).run d'
    DiskOutcome directory d (done ++ files) run.1 run.2 := by
  induction files generalizing done d' with
  | nil =>
    rw [List.append_nil]
    exact .written h
  | cons f files ih =>
    have hpair : d'.writeFile (directory.join f.name) f.contents =
        ((d.writeFile (directory.join f.name) f.contents).1,
          (d'.writeFile (directory.join f.name) f.contents).2) := by
      rw [← h.sameKinds.writeFile_result]
    rw [writeFiles_cons_run, writeFile_run, hpair]
    cases hresult : (d.writeFile (directory.join f.name) f.contents).1 with
    | written =>
      have hnext := ih (h.append ((h.sameKinds.writeFile_result _ _).trans hresult))
      rwa [List.map_append, List.append_assoc] at hnext
    | notCreated =>
      simp only [Disk.writeFile_of_notCreated ((h.sameKinds.writeFile_result _ _).trans hresult), discard_run]
      exact .notCreated rfl h.result hresult (h.toOpened.without (fun _ hb => hb) fun _ => h.exists_locate)
    | notWritten =>
      have hopened := h.toOpened.append f
      have hfile : ∃ l, d.locate (directory.join f.name) = some l ∧ d.entry? l ≠ some .directory :=
        Disk.exists_locate_of_created (by rw [hresult]; nofun)
      simp only [discard_run]
      exact .notWritten rfl h.result hresult (hopened.without (by simp [or_comm])
        (List.forall_mem_cons.mpr ⟨hfile, fun _ => h.exists_locate⟩))

theorem diskOutcome_write (suite : Suite) (directory : Path) (d : Disk room) :
    let made := d.makeDirectories directory
    let run := (suite.write directory : StateM (Disk room) _).run d
    made.1 = false ∧ run = (.error (.destinationUnavailable directory), made.2) ∨
      made.1 = true ∧ DiskOutcome directory made.2 suite.files run.1 run.2 := by
  rw [write_run, makeDirectories_run]
  rcases d.makeDirectories directory with ⟨_ | _, made⟩
  · exact .inl ⟨rfl, rfl⟩
  · exact .inr ⟨rfl, diskOutcome_writeFiles (.nil directory made) suite.files⟩

theorem subset_of_split {before after : List SuiteFile} (hfiles : files = before ++ f :: after) :
    f :: before ⊆ files := by
  rw [hfiles]
  exact List.cons_subset.mpr ⟨List.mem_append_right _ List.mem_cons_self, List.subset_append_left _ _⟩

theorem not_mem_of_split {before after : List SuiteFile} (hfiles : files = before ++ f :: after)
    (hnodup : files.Nodup) : f ∉ before ∧ ∀ a ∈ after, a ∈ files ∧ a ∉ f :: before := by
  grind

theorem DiskOutcome.outside {result : Except RunError (List Path)}
    (h : DiskOutcome directory d files result d')
    (hl : ∀ f ∈ files, d.locate (directory.join f.name) ≠ some l) : d'.entry? l = d.entry? l := by
  cases h with
  | written h => exact h.outside l hl
  | notCreated hfiles _ _ h =>
    exact h.outside fun b hb => hl b (subset_of_split hfiles (List.mem_cons_of_mem _ hb))
  | notWritten hfiles _ _ h => exact h.outside fun b hb => hl b (subset_of_split hfiles hb)

theorem DiskOutcome.keeps_files {e : RunError} (h : DiskOutcome directory d files (.error e) d') :
    ∃ (before : List SuiteFile) (f : SuiteFile) (after opened : List SuiteFile), files = before ++ f :: after ∧
      (e = .destinationUnavailable (directory.join f.name) ∧ opened = before ∨
        e = .notWritten (directory.join f.name) ∧ opened = before ++ [f]) ∧
      (∀ l text, d'.entry? l = some (.file text) → d.entry? l = some (.file text)) ∧
      ∀ l text, d.entry? l = some (.file text) → d'.entry? l =
        if ∃ b ∈ opened, d'.locate (directory.join b.name) = some l then none else some (.file text) := by
  cases h with
  | @notCreated before after f _ hfiles _ _ h =>
    refine ⟨before, f, after, before, hfiles, .inl ⟨rfl, rfl⟩, fun _ _ => h.of_file, fun l text hl => ?_⟩
    rw [h.entries, hl]
    simp only [h.sameDirectories.locate]
  | @notWritten before after f _ hfiles _ _ h =>
    refine ⟨before, f, after, before ++ [f], hfiles, .inr ⟨rfl, rfl⟩, fun _ _ => h.of_file, fun l text hl => ?_⟩
    rw [h.entries, hl]
    simp [h.sameDirectories.locate, or_comm]

/-- A suite whose names differ is written all or none. Making the directory adds directories, none of them where
a file goes unless the path turns back up. Then either all files are there, each with its text unless it stands
for a link, or one fails: neither it nor those before it are there, and those after it are as they were. No other
place of the disk changes in either case. -/
theorem write_allOrNothing (suite : Suite) (directory : Path) (d : Disk room)
    (hnames : ∀ f ∈ suite.files, '/' ∉ f.name.toList) (hnodup : (suite.files.map SuiteFile.name).Nodup) :
    let path (f : SuiteFile) := directory.join f.name
    let made := (d.makeDirectories directory).2
    let result := ((suite.write directory : StateM (Disk room) _).run d).1
    let d' := ((suite.write directory : StateM (Disk room) _).run d).2
    d.Extended made ∧
      (".." ∉ splitText '/' directory →
        ∀ f ∈ suite.files, ∀ l, made.locate (path f) = some l → made.entry? l = d.entry? l) ∧
      (∀ l, (∀ f ∈ suite.files, made.locate (path f) ≠ some l) → d'.entry? l = made.entry? l) ∧
      match result with
      | .ok paths =>
        paths = suite.files.map path ∧ ∀ f ∈ suite.files, d'.lookup (path f) =
          if made.lookup (path f) = some .full then some .full else some (.file f.contents)
      | .error e =>
        (d.makeDirectories directory).1 = false ∧ e = .destinationUnavailable directory ∧ d' = made ∨
          ∃ (before : List SuiteFile) (f : SuiteFile) (after : List SuiteFile), suite.files = before ++ f :: after ∧
            (∀ b ∈ before, (made.writeFile (path b) b.contents).1 = .written ∧ d'.lookup (path b) = none) ∧
            ((made.writeFile (path f) f.contents).1 = .notCreated ∧ e = .destinationUnavailable (path f) ∧
                d'.lookup (path f) = made.lookup (path f) ∨
              (made.writeFile (path f) f.contents).1 = .notWritten ∧ e = .notWritten (path f) ∧
                d'.lookup (path f) = none) ∧
            ∀ a ∈ after, d'.lookup (path a) = made.lookup (path a) := by
  intro path made result d'
  have hapart := apart_of_names hnames hnodup directory made
  refine ⟨d.extended_makeDirectories directory,
    fun hup f hf l hl => Disk.entry?_makeDirectories hup (hnames f hf) hl, ?_⟩
  rcases suite.diskOutcome_write directory d with ⟨hmade, hrun⟩ | ⟨-, hrun⟩
  · obtain ⟨hresult, hd'⟩ : result = _ ∧ d' = made := Prod.mk.inj hrun
    rw [hresult, hd']
    exact ⟨fun _ _ => rfl, .inl ⟨hmade, rfl, rfl⟩⟩
  · change DiskOutcome directory made suite.files result d' at hrun
    clear_value result d'
    refine ⟨fun l => hrun.outside, ?_⟩
    cases hrun with
    | written h => exact ⟨rfl, fun f hf => h.lookup hapart hf⟩
    | @notCreated before after f _ hfiles hbefore hresult h =>
      have hsub := subset_of_split hfiles
      have hbeforeSub := List.subset_of_cons_subset hsub
      obtain ⟨hnot, hafter⟩ := not_mem_of_split hfiles hnodup.of_map
      refine .inr ⟨before, f, after, hfiles, fun b hb => ⟨hbefore b hb, h.lookup_of_mem hb⟩,
        .inl ⟨hresult, rfl, h.lookup_of_not_mem hapart hbeforeSub (hsub List.mem_cons_self) hnot⟩,
        fun a ha => ?_⟩
      obtain ⟨hmem, hnot⟩ := hafter a ha
      exact h.lookup_of_not_mem hapart hbeforeSub hmem fun hb => hnot (List.mem_cons_of_mem f hb)
    | @notWritten before after f _ hfiles hbefore hresult h =>
      obtain ⟨-, hafter⟩ := not_mem_of_split hfiles hnodup.of_map
      refine .inr ⟨before, f, after, hfiles,
        fun b hb => ⟨hbefore b hb, h.lookup_of_mem (List.mem_cons_of_mem f hb)⟩,
        .inr ⟨hresult, rfl, h.lookup_of_mem List.mem_cons_self⟩, fun a ha => ?_⟩
      obtain ⟨hmem, hnot⟩ := hafter a ha
      exact h.lookup_of_not_mem hapart (subset_of_split hfiles) hmem hnot

/-- The link takes no byte: the file before it is gone, and so is the link, but not what stands after it. -/
theorem write_allOrNothing_fullLink :
    let suite : Suite := ⟨"BankTest", [⟨"A.java", "a"⟩, ⟨"B.java", "b"⟩, ⟨"C.java", "c"⟩]⟩
    let d : Disk := ⟨"/home", [("/home", .directory), ("/home/out", .directory), ("/home/out/B.java", .full),
      ("/home/out/C.java", .file "old")]⟩
    let run := (suite.write "out" : StateM Disk _).run d
    run.1 = .error (.notWritten "out/B.java") ∧
      (∀ l, (∀ f ∈ suite.files, d.locate (Path.join "out" f.name) ≠ some l) → Disk.entry? run.2 l = d.entry? l) ∧
      run.2.lookup "out/A.java" = none ∧ run.2.lookup "out/B.java" = none ∧
      run.2.lookup "out/C.java" = some (.file "old") := by
  intro suite d run
  have hrun := suite.write_allOrNothing "out" d (by decide +kernel) (by decide +kernel)
  have hmade : (d.makeDirectories "out").2 = d := by decide +kernel
  rw [hmade] at hrun
  exact ⟨by decide +kernel, hrun.2.2.1, by decide +kernel, by decide +kernel, by decide +kernel⟩

/-- Writing over a file and then failing loses the file. -/
theorem write_error_loses_file :
    let suite : Suite := ⟨"BankTest", [⟨"A.java", "new"⟩, ⟨"B.java", "b"⟩]⟩
    let d : Disk := ⟨"/home", [("/home", .directory), ("/home/out", .directory),
      ("/home/out/A.java", .file "old"), ("/home/out/B.java", .directory)]⟩
    let run := (suite.write "out" : StateM Disk _).run d
    run.1 = .error (.destinationUnavailable "out/B.java") ∧
      d.entry? "/home/out/A.java" = some (.file "old") ∧ Disk.entry? run.2 "/home/out/A.java" = none := by
  decide +kernel

/-- When a suite could not be written, a file is on the disk if it was there before, with the same text, but for
those that stood in the place of a file that was opened: of those before the one that failed, and of that one too
if it was created and could not be written. -/
theorem write_error_keeps_files {suite : Suite} {directory : Path} {d d' : Disk room} {e : RunError}
    (h : (suite.write directory : StateM (Disk room) _).run d = (.error e, d')) :
    (∀ l text, d'.entry? l = some (.file text) → d.entry? l = some (.file text)) ∧
      ((e = .destinationUnavailable directory ∧
          ∀ l text, d.entry? l = some (.file text) → d'.entry? l = some (.file text)) ∨
        ∃ (before : List SuiteFile) (f : SuiteFile) (after opened : List SuiteFile),
          suite.files = before ++ f :: after ∧
          (e = .destinationUnavailable (directory.join f.name) ∧ opened = before ∨
            e = .notWritten (directory.join f.name) ∧ opened = before ++ [f]) ∧
          ∀ l text, d.entry? l = some (.file text) → d'.entry? l =
            if ∃ b ∈ opened, d'.locate (directory.join b.name) = some l then none else some (.file text)) := by
  have hmade := (d.extended_makeDirectories directory).file_iff
  have hrun := suite.diskOutcome_write directory d
  rw [h] at hrun
  rcases hrun with ⟨-, hrun⟩ | ⟨-, hrun⟩
  · cases hrun
    exact ⟨fun l text => (hmade l text).mp, .inl ⟨rfl, fun l text => (hmade l text).mpr⟩⟩
  · obtain ⟨before, f, after, opened, hfiles, he, hold, hkept⟩ := hrun.keeps_files
    exact ⟨fun l text hl => (hmade l text).mp (hold l text hl),
      .inr ⟨before, f, after, opened, hfiles, he, fun l text hl => hkept l text ((hmade l text).mpr hl)⟩⟩

/-- The second file has no room: what stood in its place and in that of the first one is lost, and what stands in
the place of the third one is kept. -/
theorem write_error_keeps_files_later :
    let room : Room := {
      cut := fun l text => if l = "/home/out/B.java" ∧ text ≠ "" then some "" else none
      cut_start := by simp +contextual }
    let suite : Suite := ⟨"BankTest", [⟨"A.java", "new"⟩, ⟨"B.java", "b"⟩, ⟨"C.java", "c"⟩]⟩
    let d : Disk room := ⟨"/home", [("/home", .directory), ("/home/out", .directory),
      ("/home/out/A.java", .file "old"), ("/home/out/B.java", .file "old"), ("/home/out/C.java", .file "old")]⟩
    let d' : Disk room := ⟨"/home", [("/home", .directory), ("/home/out", .directory),
      ("/home/out/C.java", .file "old")]⟩
    (suite.write "out" : StateM (Disk room) _).run d = (.error (.notWritten "out/B.java"), d') ∧
      ∀ l text, d'.entry? l = some (.file text) → d.entry? l = some (.file text) := by
  intro room suite d d'
  have hrun : (suite.write "out" : StateM (Disk room) _).run d = (.error (.notWritten "out/B.java"), d') :=
    Prod.ext (by decide +kernel) (by decide +kernel)
  exact ⟨hrun, (write_error_keeps_files hrun).1⟩

end Suite

end TestScribe

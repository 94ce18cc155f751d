import TestScribe.Storage.Disk

/-!
# What stands on a disk

`entry?` is the view of a disk: `entry?_writeFile` and `entry?_remove` say what an operation does to it.
Writing and removing files leaves the directories as they are (`SameDirectories`), so a path leads to the
same location before and after.
-/

namespace TestScribe

namespace Location

theorem child_ne_root (here : Location) (name : String) : here.child name ≠ .root := by
  intro h
  have hlength := congrArg String.length h
  rw [child, String.length_append, String.length_append] at hlength
  exact absurd hlength (by simp [root])

theorem child_inj {here : Location} {a b : String} (h : here.child a = here.child b) : a = b :=
  (String.append_right_inj _).mp h

theorem length_lt_child (here : Location) (name : String) : here.length < (here.child name).length := by
  rw [child, String.length_append, String.length_append]
  have : "/".length = 1 := rfl
  omega

end Location

namespace Disk

variable {room : Room} {d d' d'' : Disk room} {l l' here : Location} {e : Entry} {p : Path} {text : String}

/-! ### Entries -/

theorem find_filter (l k : Location) (entries : List (Location × Entry)) :
    find l (entries.filter fun e => e.1 != k) = if l = k then none else find l entries := by
  induction entries with
  | nil => exact (ite_self _).symm
  | cons x entries ih =>
    obtain ⟨k', e⟩ := x
    by_cases hk : k' = k
    · rw [List.filter_cons_of_neg (by simp [hk]), ih, find]
      by_cases hl : l = k
      · rw [if_pos hl, if_pos hl]
      · rw [if_neg hl, if_neg hl, if_neg (hk ▸ Ne.symm hl)]
    · rw [List.filter_cons_of_pos (by simp [hk]), find, ih, find]
      by_cases hl : k' = l
      · rw [if_pos hl, if_pos hl, if_neg (hl ▸ hk)]
      · rw [if_neg hl, if_neg hl]

theorem entry?_erase (d : Disk room) (hl : l ≠ .root) (l' : Location) :
    Disk.entry? (d.erase l) l' = if l' = l then none else d.entry? l' := by
  unfold entry?
  rw [erase, find_filter]
  by_cases hroot : l' = .root
  · rw [if_pos hroot, if_pos hroot, if_neg (hroot ▸ Ne.symm hl)]
  · rw [if_neg hroot, if_neg hroot]

theorem entry?_put (d : Disk room) (hl : l ≠ .root) (e : Entry) (l' : Location) :
    Disk.entry? (d.put l e) l' = if l' = l then some e else d.entry? l' := by
  by_cases hl' : l' = l
  · subst hl'
    rw [if_pos rfl, entry?, if_neg hl, put, find, if_pos rfl]
  · have hput : Disk.entry? (d.put l e) l' = Disk.entry? (d.erase l) l' := by
      unfold entry?
      rw [put, find, if_neg (Ne.symm hl')]
    rw [hput, entry?_erase d hl, if_neg hl', if_neg hl']

/-! ### Locations -/

/-- Where a path leads is never the root. -/
theorem ne_root_of_locate (h : d.locate p = some l) : l ≠ .root := by
  rw [locate] at h
  split at h
  · rw [locateIn] at h
    split at h
    · cases h
    · next name _ =>
      split at h
      · cases h
      · obtain ⟨here, -, rfl⟩ := Option.map_eq_some_iff.mp h
        exact here.child_ne_root name
  · cases h

/-- What stands where a path leads. -/
def lookup (d : Disk room) (p : Path) : Option Entry :=
  (d.locate p).bind d.entry?

/-- The disks have the same directories, so a path leads to the same location on both. -/
structure SameDirectories (d d' : Disk room) : Prop where
  workingDirectory : d'.workingDirectory = d.workingDirectory
  directory_iff : ∀ l, d'.entry? l = some .directory ↔ d.entry? l = some .directory

namespace SameDirectories

theorem refl (d : Disk room) : d.SameDirectories d :=
  ⟨rfl, fun _ => Iff.rfl⟩

theorem trans (h : d.SameDirectories d') (h' : d'.SameDirectories d'') : d.SameDirectories d'' :=
  ⟨h'.workingDirectory.trans h.workingDirectory,
    fun l => (h'.directory_iff l).trans (h.directory_iff l)⟩

theorem follow (h : d.SameDirectories d') (here : Location) (names : List String) :
    d'.follow here names = d.follow here names := by
  induction names generalizing here with
  | nil => rfl
  | cons name names ih => simp only [Disk.follow, h.directory_iff, ih]

theorem locate (h : d.SameDirectories d') (p : Path) : d'.locate p = d.locate p := by
  simp only [Disk.locate, Disk.locateIn, Disk.start, h.workingDirectory, h.follow]

end SameDirectories

/-- The disks have the same links besides, so the same files can be written on both. -/
structure SameKinds (d d' : Disk room) : Prop extends SameDirectories d d' where
  full_iff : ∀ l, d'.entry? l = some .full ↔ d.entry? l = some .full

namespace SameKinds

theorem refl (d : Disk room) : d.SameKinds d :=
  ⟨.refl d, fun _ => Iff.rfl⟩

theorem trans (h : d.SameKinds d') (h' : d'.SameKinds d'') : d.SameKinds d'' :=
  ⟨h.toSameDirectories.trans h'.toSameDirectories, fun l => (h'.full_iff l).trans (h.full_iff l)⟩

end SameKinds

/-! ### Writing -/

/-- What can be opened at the location takes the whole of the text. -/
def Takes (d : Disk room) (l : Location) (text : String) : Prop :=
  if d.entry? l = some .full then text = "" else room.cut l text = none

instance (d : Disk room) (l : Location) (text : String) : Decidable (d.Takes l text) :=
  inferInstanceAs (Decidable (if d.entry? l = some .full then text = "" else room.cut l text = none))

theorem SameKinds.takes_iff (h : d.SameKinds d') : d'.Takes l text ↔ d.Takes l text := by
  simp only [Takes, h.full_iff]

theorem writeFile_of_not_located (h : d.locate p = none) (text : String) :
    d.writeFile p text = (.notCreated, d) := by
  rw [writeFile, h]

/-- What is in a file afterwards is the text, or else the part of it that has room. -/
theorem writeFile_of_located (h : d.locate p = some l) (text : String) :
    d.writeFile p text =
      if d.entry? l = some .directory then (.notCreated, d)
      else (if d.Takes l text then .written else .notWritten,
        if d.entry? l = some .full then d else d.put l (.file ((room.cut l text).getD text))) := by
  rw [writeFile, h]
  dsimp only
  rcases hl : d.entry? l with _ | _ | _ | _ <;> cases hcut : room.cut l text <;> simp [Takes, hl, hcut]

theorem writeFile_result (d : Disk room) (p : Path) (text : String) :
    (d.writeFile p text).1 =
      match d.locate p with
      | none => .notCreated
      | some l =>
        if d.entry? l = some .directory then .notCreated
        else if d.Takes l text then .written
        else .notWritten := by
  cases hp : d.locate p with
  | none => rw [writeFile_of_not_located hp]
  | some l =>
    rw [writeFile_of_located hp]
    dsimp only
    split <;> rfl

theorem SameKinds.writeFile_result (h : d.SameKinds d') (p : Path) (text : String) :
    (d'.writeFile p text).1 = (d.writeFile p text).1 := by
  simp only [Disk.writeFile_result, h.locate, h.directory_iff, h.takes_iff]

theorem entry?_writeFile (d : Disk room) (p : Path) (text : String) (l : Location) :
    Disk.entry? (d.writeFile p text).2 l =
      if d.locate p = some l ∧ d.entry? l ≠ some .directory ∧ d.entry? l ≠ some .full then
        some (.file ((room.cut l text).getD text))
      else d.entry? l := by
  cases hp : d.locate p with
  | none => rw [writeFile_of_not_located hp, if_neg (by simp)]
  | some l' =>
    have hfile := writeFile_of_located hp text
    by_cases hopen : d.entry? l' ≠ some .directory ∧ d.entry? l' ≠ some .full
    · rw [hfile, if_neg hopen.1, if_neg hopen.2, entry?_put d (ne_root_of_locate hp)]
      by_cases hl : l = l'
      · subst hl
        rw [if_pos rfl, if_pos ⟨rfl, hopen⟩]
      · rw [if_neg hl, if_neg fun h => hl (Option.some.inj h.1).symm]
    · -- No file can be made where a directory or a link is.
      have hsame : (d.writeFile p text).2 = d := by
        rw [hfile]
        split
        · rfl
        · next hdir => exact if_pos (Decidable.not_not.mp fun hfull => hopen ⟨hdir, hfull⟩)
      have hnot : ¬ (some l' = some l ∧ d.entry? l ≠ some .directory ∧ d.entry? l ≠ some .full) := by
        rintro ⟨⟨⟩, h⟩
        exact hopen h
      rw [hsame, if_neg hnot]

theorem sameKinds_writeFile (d : Disk room) (p : Path) (text : String) : d.SameKinds (d.writeFile p text).2 := by
  refine ⟨⟨?_, fun l => ?_⟩, fun l => ?_⟩
  · rw [writeFile]
    repeat' split
    all_goals rfl
  · rw [entry?_writeFile]
    split
    · next h => simp [h.2.1]
    · rfl
  · rw [entry?_writeFile]
    split
    · next h => simp [h.2.2]
    · rfl

/-- A file that cannot be created leaves the disk as it was. -/
theorem writeFile_of_notCreated (h : (d.writeFile p text).1 = .notCreated) : (d.writeFile p text).2 = d := by
  cases hp : d.locate p with
  | none => rw [writeFile_of_not_located hp]
  | some l =>
    rw [writeFile_of_located hp] at h ⊢
    by_cases hdir : d.entry? l = some .directory
    · rw [if_pos hdir]
    · rw [if_neg hdir] at h
      dsimp only at h
      split at h <;> cases h

/-- Where a file was created there is no directory. -/
theorem exists_locate_of_created (h : (d.writeFile p text).1 ≠ .notCreated) :
    ∃ l, d.locate p = some l ∧ d.entry? l ≠ some .directory := by
  rw [writeFile_result] at h
  split at h
  · exact absurd rfl h
  · next l hl =>
    refine ⟨l, hl, fun hdir => h ?_⟩
    rw [if_pos hdir]

/-- A file that was written took the whole text. -/
theorem takes_of_written (h : (d.writeFile p text).1 = .written) (hl : d.locate p = some l) : d.Takes l text := by
  rw [writeFile_result, hl] at h
  dsimp only at h
  split at h
  · cases h
  · split at h
    · next htakes => exact htakes
    · cases h

theorem Takes.getD_cut (h : d.Takes l text) (hfull : d.entry? l ≠ some .full) :
    (room.cut l text).getD text = text := by
  rw [Takes, if_neg hfull] at h
  rw [h, Option.getD_none]

/-! ### Removing -/

theorem entry?_remove (d : Disk room) (p : Path) (l : Location) :
    Disk.entry? (d.remove p) l =
      if d.locate p = some l ∧ d.entry? l ≠ some .directory then none else d.entry? l := by
  rw [remove]
  cases hp : d.locate p with
  | none => simp
  | some l' =>
    have hroot := ne_root_of_locate hp
    by_cases hl : l' = l
    · subst hl
      by_cases hdir : d.entry? l' = some .directory <;> simp [hdir, entry?_erase d hroot]
    · by_cases hdir : d.entry? l' = some .directory <;> simp [hl, hdir, entry?_erase d hroot, Ne.symm hl]

theorem sameDirectories_remove (d : Disk room) (p : Path) : d.SameDirectories (d.remove p) := by
  refine ⟨?_, fun l => ?_⟩
  · rw [remove]
    repeat' split
    all_goals rfl
  · rw [entry?_remove]
    split
    · next h => simp [h.2]
    · rfl

/-- Paths are removed one after another; where one of them leads, nothing but a directory is left. -/
theorem removeAll (d : Disk room) (paths : List Path) :
    d.SameDirectories (paths.foldl remove d) ∧ ∀ l, Disk.entry? (paths.foldl remove d) l =
      if (∃ p ∈ paths, d.locate p = some l) ∧ d.entry? l ≠ some .directory then none else d.entry? l := by
  induction paths generalizing d with
  | nil => exact ⟨.refl d, fun l => by simp⟩
  | cons p paths ih =>
    have hsame := sameDirectories_remove d p
    obtain ⟨hdirs, hentry⟩ := ih (d.remove p)
    refine ⟨hsame.trans hdirs, fun l => ?_⟩
    rw [List.foldl_cons, hentry]
    simp only [hsame.locate, hsame.directory_iff, ne_eq, List.mem_cons, exists_eq_or_imp]
    rw [entry?_remove]
    by_cases hp : d.locate p = some l <;> by_cases hdir : d.entry? l = some .directory <;> simp [hp, hdir]

end Disk

end TestScribe

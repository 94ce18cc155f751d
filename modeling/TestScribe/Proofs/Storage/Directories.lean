import TestScribe.Proofs.Storage.Disk

/-!
# Directories and the paths below them

Making a directory adds directories where nothing was and changes nothing else (`extended_makeDirectories`),
and unless its path turns back up, nothing changes below it (`entry?_makeDirectories`). A name joined to the
path of a directory leads to a location right below it (`exists_child_of_locate_join`).
-/

namespace TestScribe

/-! ### Texts between slashes -/

namespace Text

variable {c : Char} {xs : List Char}

theorem splitAt_ne_nil (c : Char) (xs : List Char) : splitAt c xs ≠ [] := by
  cases xs with
  | nil => simp [splitAt]
  | cons x xs =>
    rw [splitAt]
    split
    · simp
    · split <;> simp

theorem splitAt_append (c : Char) (xs ys : List Char) :
    splitAt c (xs ++ c :: ys) = splitAt c xs ++ splitAt c ys := by
  induction xs with
  | nil => simp [splitAt]
  | cons x xs ih =>
    rw [List.cons_append, splitAt, splitAt, ih]
    by_cases hx : x = c
    · rw [if_pos hx, if_pos hx, List.cons_append]
    · rw [if_neg hx, if_neg hx]
      cases hxs : splitAt c xs with
      | nil => exact absurd hxs (splitAt_ne_nil c xs)
      | cons p ps => rfl

theorem splitAt_of_not_mem (h : c ∉ xs) : splitAt c xs = [xs] := by
  induction xs with
  | nil => rfl
  | cons x xs ih =>
    rw [List.mem_cons, not_or] at h
    rw [splitAt, if_neg (Ne.symm h.1), ih h.2]

/-- The pieces are made of the characters of the text, but for the separator. -/
theorem forall_mem_splitAt {P : Char → Prop} (h : ∀ x ∈ xs, x ≠ c → P x) : ∀ p ∈ splitAt c xs, ∀ x ∈ p, P x := by
  induction xs with
  | nil => simp [splitAt]
  | cons x xs ih =>
    obtain ⟨hx, hxs⟩ := List.forall_mem_cons.mp h
    have hpieces := ih hxs
    rw [splitAt]
    split
    · exact List.forall_mem_cons.mpr ⟨fun y hy => absurd hy List.not_mem_nil, hpieces⟩
    · next hne =>
      cases hsplit : splitAt c xs with
      | nil => exact absurd hsplit (splitAt_ne_nil c xs)
      | cons p ps =>
        rw [hsplit] at hpieces
        obtain ⟨hp, hps⟩ := List.forall_mem_cons.mp hpieces
        exact List.forall_mem_cons.mpr ⟨List.forall_mem_cons.mpr ⟨hx hne, hp⟩, hps⟩

end Text

theorem not_mem_of_mem_splitText {c : Char} {s piece : String} (h : piece ∈ splitText c s) : c ∉ piece.toList := by
  obtain ⟨p, hp, rfl⟩ := List.mem_map.mp h
  rw [String.toList_ofList]
  intro hc
  exact Text.forall_mem_splitAt (P := (· ≠ c)) (fun _ _ => id) p hp c hc rfl

theorem mem_of_mem_splitText {c x : Char} {s piece : String} (h : piece ∈ splitText c s) (hx : x ∈ piece.toList) :
    x ∈ s.toList := by
  obtain ⟨p, hp, rfl⟩ := List.mem_map.mp h
  rw [String.toList_ofList] at hx
  exact Text.forall_mem_splitAt (P := (· ∈ s.toList)) (fun _ hx _ => hx) p hp x hx

theorem splitText_of_toList {c : Char} {s : String} {xs ys : List Char} (h : s.toList = xs ++ c :: ys) :
    splitText c s = (Text.splitAt c xs).map String.ofList ++ (Text.splitAt c ys).map String.ofList := by
  rw [splitText, h, Text.splitAt_append, List.map_append]

namespace Path

variable {directory : Path} {name : String}

theorem isAbsolute_iff (p : Path) : p.isAbsolute = true ↔ p.toList.head? = some '/' := by
  show ['/'].isPrefixOf p.toList = true ↔ _
  cases p.toList with
  | nil => simp
  | cons c cs =>
    rw [List.head?_cons, Option.some.injEq, eq_comm (b := '/')]
    simp [List.isPrefixOf]

theorem not_isAbsolute_of_not_mem (h : '/' ∉ name.toList) : isAbsolute name = false := by
  rw [Bool.eq_false_iff, Ne, isAbsolute_iff]
  exact fun hhead => h (List.mem_of_mem_head? hhead)

theorem isAbsolute_join (hname : '/' ∉ name.toList) : (directory.join name).isAbsolute = directory.isAbsolute := by
  rw [join, not_isAbsolute_of_not_mem hname, if_neg Bool.false_ne_true]
  by_cases hempty : directory = ""
  · subst hempty
    rw [if_pos (.inl rfl), String.empty_append, not_isAbsolute_of_not_mem hname]
    rfl
  · obtain ⟨c, cs, hcs⟩ := List.exists_cons_of_ne_nil fun h => hempty (String.toList_eq_nil_iff.mp h)
    have hhead (rest : String) : (directory ++ rest).toList.head? = directory.toList.head? := by
      rw [String.toList_append, hcs]
      rfl
    split
    · rw [Bool.eq_iff_iff, isAbsolute_iff, isAbsolute_iff, hhead]
    · rw [Bool.eq_iff_iff, isAbsolute_iff, isAbsolute_iff, String.append_assoc, hhead]

/-- The names of a joined path are those of the directory, but for a last one that counts for nothing, and
the name. -/
theorem splitText_join (hname : '/' ∉ name.toList) :
    ∃ parents, splitText '/' (directory.join name) = parents ++ [name] ∧
      (splitText '/' directory = parents ∨ splitText '/' directory = parents ++ [""]) := by
  have hsplit : (Text.splitAt '/' name.toList).map String.ofList = [name] := by
    rw [Text.splitAt_of_not_mem hname, List.map_singleton, String.ofList_toList]
  rw [join, not_isAbsolute_of_not_mem hname, if_neg Bool.false_ne_true]
  by_cases hempty : directory = ""
  · subst hempty
    rw [if_pos (.inl rfl), String.empty_append]
    exact ⟨[], hsplit, .inr rfl⟩
  · cases hslash : endsWithChar directory '/' with
    | true =>
      obtain ⟨ds, hds⟩ := List.getLast?_eq_some_iff.mp (beq_iff_eq.mp hslash)
      have hjoin : (directory ++ name).toList = ds ++ '/' :: name.toList := by
        rw [String.toList_append, hds, List.append_assoc, List.singleton_append]
      rw [if_pos (.inr rfl), splitText_of_toList hjoin, hsplit, splitText_of_toList hds]
      exact ⟨_, rfl, .inr rfl⟩
    | false =>
      have hjoin : (directory ++ "/" ++ name).toList = directory.toList ++ '/' :: name.toList := by
        rw [String.toList_append, String.toList_append, List.append_assoc]
        rfl
      rw [if_neg (by simp [hempty]), splitText_of_toList hjoin, hsplit]
      exact ⟨_, rfl, .inl rfl⟩

end Path

namespace Disk

variable {room : Room} {d d' d'' : Disk room} {here there l : Location} {name : String} {names : List String}
  {p directory : Path}

/-! ### Making directories -/

/-- Directories were added where nothing was, and nothing else has changed. -/
structure Extended (d d' : Disk room) : Prop where
  workingDirectory : d'.workingDirectory = d.workingDirectory
  entries : ∀ l, d'.entry? l = d.entry? l ∨ d.entry? l = none ∧ d'.entry? l = some .directory

namespace Extended

theorem refl (d : Disk room) : d.Extended d :=
  ⟨rfl, fun _ => .inl rfl⟩

theorem trans (h : d.Extended d') (h' : d'.Extended d'') : d.Extended d'' := by
  refine ⟨h'.workingDirectory.trans h.workingDirectory, fun l => ?_⟩
  rcases h.entries l with he | ⟨hnone, hdir⟩ <;> rcases h'.entries l with he' | ⟨hnone', hdir'⟩
  · exact .inl (he'.trans he)
  · exact .inr ⟨he ▸ hnone', hdir'⟩
  · exact .inr ⟨hnone, he'.trans hdir⟩
  · rw [hdir] at hnone'
    cases hnone'

theorem put (hl : l ≠ .root) (hnone : d.entry? l = none) : d.Extended (d.put l .directory) := by
  refine ⟨rfl, fun l' => ?_⟩
  rw [entry?_put d hl]
  split
  · next he => exact .inr ⟨he ▸ hnone, rfl⟩
  · exact .inl rfl

theorem file_iff (h : d.Extended d') (l : Location) (text : String) :
    d'.entry? l = some (.file text) ↔ d.entry? l = some (.file text) := by
  rcases h.entries l with he | ⟨hnone, hdir⟩
  · rw [he]
  · rw [hnone, hdir]
    simp

end Extended

theorem extended_makeAlong (d : Disk room) (here : Location) (names : List String) :
    d.Extended (d.makeAlong here names).2 := by
  induction names generalizing d here with
  | nil => exact .refl d
  | cons name names ih =>
    rw [makeAlong]
    split
    · exact ih d here
    · split
      · exact ih d here.above
      · split
        · exact ih d (here.child name)
        · exact .refl d
        · next hnone =>
          split
          · exact (Extended.put (here.child_ne_root name) hnone).trans (ih _ _)
          · exact .refl d

theorem extended_makeDirectories (d : Disk room) (p : Path) : d.Extended (d.makeDirectories p).2 := by
  rw [makeDirectories]
  split
  · exact extended_makeAlong d (d.start p) (splitText '/' p)
  · exact .refl d

/-! ### Below a directory -/

theorem follow_of_child (hvoid : Path.isVoid name = false) (hup : name ≠ "..")
    (h : d.follow here (name :: names) = some there) : d.follow (here.child name) names = some there := by
  rw [follow, hvoid, if_neg Bool.false_ne_true, if_neg hup] at h
  split at h
  · exact h
  · cases h

theorem length_le_of_follow (hup : ".." ∉ names) (h : d.follow here names = some there) :
    here.length ≤ there.length := by
  induction names generalizing here with
  | nil => cases h; exact Nat.le_refl _
  | cons name names ih =>
    rw [List.mem_cons, not_or] at hup
    obtain ⟨hname, hup⟩ := hup
    cases hvoid : Path.isVoid name with
    | true =>
      rw [follow, if_pos hvoid] at h
      exact ih hup h
    | false =>
      have hchild := ih hup (follow_of_child hvoid (Ne.symm hname) h)
      exact Nat.le_trans (Nat.le_of_lt (here.length_lt_child name)) hchild

/-- On the way down to a directory nothing is made that is longer than the way. -/
theorem entry?_makeAlong (hup : ".." ∉ names) (h : (d.makeAlong here names).2.follow here names = some there)
    (hl : there.length < l.length) : Disk.entry? (d.makeAlong here names).2 l = d.entry? l := by
  induction names generalizing d here with
  | nil => rfl
  | cons name names ih =>
    rw [List.mem_cons, not_or] at hup
    obtain ⟨hname, hup⟩ := hup
    cases hvoid : Path.isVoid name with
    | true =>
      rw [follow, if_pos hvoid] at h
      rw [makeAlong, if_pos hvoid] at h ⊢
      exact ih hup h
    | false =>
      have hchild := follow_of_child hvoid (Ne.symm hname) h
      rw [makeAlong, hvoid, if_neg Bool.false_ne_true, if_neg (Ne.symm hname)] at hchild ⊢
      split at hchild
      · exact ih hup hchild
      · rfl
      · split at hchild
        · next hnew =>
          have hlength := length_le_of_follow hup hchild
          have hne : l ≠ here.child name := by
            rintro rfl
            omega
          rw [if_pos hnew, ih hup hchild, entry?_put d (here.child_ne_root name), if_neg hne]
        · next hold => rw [if_neg hold]

theorem follow_append_void (d : Disk room) (here : Location) (names : List String) :
    d.follow here (names ++ [""]) = d.follow here names := by
  induction names generalizing here with
  | nil => rfl
  | cons name names ih => simp only [List.cons_append, follow, ih]

theorem exists_child_of_locate_join (hname : '/' ∉ name.toList)
    (h : d.locate (directory.join name) = some l) :
    ∃ there, d.follow (d.start directory) (splitText '/' directory) = some there ∧ l = there.child name := by
  obtain ⟨parents, hjoin, hdirectory⟩ := @Path.splitText_join directory name hname
  have hfollow : d.follow (d.start directory) (splitText '/' directory) =
      d.follow (d.start directory) parents := by
    rcases hdirectory with hd | hd <;> rw [hd]
    exact follow_append_void d _ parents
  rw [locate] at h
  split at h
  · rw [locateIn, hjoin, List.getLast?_concat, List.dropLast_concat, start, Path.isAbsolute_join hname] at h
    dsimp only at h
    split at h
    · cases h
    · obtain ⟨there, hthere, rfl⟩ := Option.map_eq_some_iff.mp h
      exact ⟨there, hfollow.trans hthere, rfl⟩
  · cases h

/-- Names joined to a directory lead to different locations. -/
theorem eq_of_locate_join {name' : String} (hname : '/' ∉ name.toList) (hname' : '/' ∉ name'.toList)
    (h : d.locate (directory.join name) = some l) (h' : d.locate (directory.join name') = some l) :
    name = name' := by
  obtain ⟨there, hthere, rfl⟩ := exists_child_of_locate_join hname h
  obtain ⟨there', hthere', hl⟩ := exists_child_of_locate_join hname' h'
  rw [hthere, Option.some.injEq] at hthere'
  subst hthere'
  exact Location.child_inj hl

/-- Unless the path of a directory turns back up, making it changes nothing below it. -/
theorem entry?_makeDirectories (hup : ".." ∉ splitText '/' directory) (hname : '/' ∉ name.toList)
    (h : (d.makeDirectories directory).2.locate (directory.join name) = some l) :
    Disk.entry? (d.makeDirectories directory).2 l = d.entry? l := by
  obtain ⟨there, hthere, rfl⟩ := exists_child_of_locate_join hname h
  have hstart : (d.makeDirectories directory).2.start directory = d.start directory := by
    rw [start, (extended_makeDirectories d directory).workingDirectory, start]
  rw [hstart] at hthere
  rw [makeDirectories] at hthere ⊢
  split
  · next hvalid =>
    rw [if_pos hvalid] at hthere
    exact entry?_makeAlong hup hthere (there.length_lt_child name)
  · rfl

end Disk

end TestScribe

import Mathlib.Data.List.Basic
import Mathlib.Data.List.Induction
import Mathlib.Logic.Relation
import TestScribe.Names

/-!
# Collected names

A list of collected names has no name twice (`nodup_firstOccurrences`) and has the names it was collected
from (`mem_firstOccurrences`), each where it occurs first (`firstOccurrences_eq_eraseDups`, `pairwise_idxOf_lt`); to
collect some of the names is to take them from what is collected (`filter_firstOccurrences`), and names that were
collected part by part can be collected again (`firstOccurrences_flatMap`). The same names are collected from two
lists exactly when they differ in later occurrences (`eqvGen_repeats_iff`). `FirstRepeat` describes the name that
`firstRepeated` finds in a list where some name occurs twice (`firstRepeated_eq_none_iff`,
`firstRepeat_of_firstRepeated`).
-/

namespace TestScribe

variable {seen names : List String} {x name : String}

theorem mem_addName : x ∈ addName seen name ↔ x ∈ seen ∨ x = name := by
  unfold addName
  split
  · next h =>
    constructor
    · exact Or.inl
    · rintro (hx | rfl)
      · exact hx
      · exact h
  · rw [List.mem_append, List.mem_singleton]

theorem nodup_addName (h : seen.Nodup) (name : String) : (addName seen name).Nodup := by
  unfold addName
  split
  · exact h
  · next hname =>
    rw [List.nodup_append]
    refine ⟨h, by simp, ?_⟩
    rintro a ha b hb rfl
    rw [List.mem_singleton] at hb
    exact hname (hb ▸ ha)

theorem mem_foldl_addName : x ∈ names.foldl addName seen ↔ x ∈ seen ∨ x ∈ names := by
  induction names generalizing seen with
  | nil => simp
  | cons name names ih => rw [List.foldl_cons, ih, mem_addName, List.mem_cons, or_assoc]

theorem nodup_foldl_addName (h : seen.Nodup) (names : List String) :
    (names.foldl addName seen).Nodup := by
  induction names generalizing seen with
  | nil => exact h
  | cons name names ih => exact ih (nodup_addName h name)

theorem mem_firstOccurrences : x ∈ firstOccurrences names ↔ x ∈ names := by
  rw [firstOccurrences, mem_foldl_addName]
  simp

theorem nodup_firstOccurrences (names : List String) : (firstOccurrences names).Nodup :=
  nodup_foldl_addName List.nodup_nil names

/-- A name that was seen counts no more; any other one counts once. -/
theorem foldl_addName_eq (seen names : List String) :
    names.foldl addName seen = seen ++ (names.filter fun x => x ∉ seen).eraseDups := by
  induction names generalizing seen with
  | nil => simp
  | cons name names ih =>
    rw [List.foldl_cons, ih, addName]
    by_cases hname : name ∈ seen
    · rw [if_pos hname, List.filter_cons_of_neg (by simpa using hname)]
    · have hfilter : (names.filter fun x => x ∉ seen ++ [name]) =
          (names.filter fun x => x ∉ seen).filter fun x => !x == name := by
        rw [List.filter_filter]
        refine List.filter_congr fun x _ => ?_
        rw [Bool.eq_iff_iff]
        simp [and_comm]
      rw [if_neg hname, List.filter_cons_of_pos (by simpa using hname), List.eraseDups_cons, hfilter,
        List.append_assoc, List.singleton_append]

theorem firstOccurrences_eq_eraseDups (names : List String) : firstOccurrences names = names.eraseDups := by
  have hall : (names.filter fun x => x ∉ ([] : List String)) = names :=
    List.filter_eq_self.mpr fun x _ => decide_eq_true List.not_mem_nil
  rw [firstOccurrences, foldl_addName_eq, hall, List.nil_append]

theorem firstOccurrences_concat (names : List String) (name : String) :
    firstOccurrences (names ++ [name]) = addName (firstOccurrences names) name := by
  rw [firstOccurrences, List.foldl_append]
  rfl

/-- Of two collected names the one that occurs first comes first. -/
theorem pairwise_idxOf_lt (names : List String) :
    (firstOccurrences names).Pairwise fun x y => names.idxOf x < names.idxOf y := by
  induction names using List.reverseRecOn with
  | nil => exact .nil
  | append_singleton names name ih =>
    -- The position of a name does not change when others come after it.
    have hidxOf {x : String} (hx : x ∈ firstOccurrences names) : (names ++ [name]).idxOf x = names.idxOf x :=
      List.idxOf_append_of_mem (mem_firstOccurrences.mp hx)
    have hpairwise : (firstOccurrences names).Pairwise fun x y =>
        (names ++ [name]).idxOf x < (names ++ [name]).idxOf y :=
      ih.imp_of_mem fun hx hy h => by rwa [hidxOf hx, hidxOf hy]
    rw [firstOccurrences_concat, addName]
    split
    · exact hpairwise
    · next hname =>
      refine List.pairwise_append.mpr ⟨hpairwise, List.pairwise_singleton _ _, fun x hx y hy => ?_⟩
      obtain rfl := List.mem_singleton.mp hy
      rw [hidxOf hx, List.idxOf_append_of_notMem fun h => hname (mem_firstOccurrences.mpr h)]
      exact Nat.lt_of_lt_of_le (List.idxOf_lt_length_of_mem (mem_firstOccurrences.mp hx)) (Nat.le_add_right _ _)

/-! ### Parts that were collected before -/

/-- Adding names that were collected is adding the names. -/
theorem foldl_addName_foldl (seen found names : List String) :
    (names.foldl addName found).foldl addName seen = names.foldl addName (found.foldl addName seen) := by
  induction names generalizing found with
  | nil => rfl
  | cons name names ih =>
    rw [List.foldl_cons, List.foldl_cons, ih]
    congr 1
    by_cases hname : name ∈ found
    · rw [addName, if_pos hname, addName, if_pos (mem_foldl_addName.mpr (.inr hname))]
    · rw [addName, if_neg hname, List.foldl_append]
      rfl

theorem firstOccurrences_flatMap {α : Type} (f : α → List String) (l : List α) :
    firstOccurrences (l.flatMap fun a => firstOccurrences (f a)) = firstOccurrences (l.flatMap f) := by
  rw [firstOccurrences, firstOccurrences, List.foldl_flatMap, List.foldl_flatMap]
  congr 1
  funext seen a
  exact foldl_addName_foldl seen [] (f a)

/-! ### Later occurrences -/

/-- A name that stands further up in the list is put in once more. A later occurrence is moved by taking it out and
putting it in elsewhere. -/
inductive Repeats : List String → List String → Prop
  | intro {front back : List String} {name : String} (hname : name ∈ front) :
      Repeats (front ++ back) (front ++ name :: back)

theorem Repeats.firstOccurrences_eq {names' : List String} (h : Repeats names names') :
    firstOccurrences names = firstOccurrences names' := by
  obtain @⟨front, back, name, hname⟩ := h
  have hfound : addName (firstOccurrences front) name = firstOccurrences front :=
    if_pos (mem_firstOccurrences.mpr hname)
  rw [firstOccurrences, List.foldl_append, firstOccurrences, List.foldl_append, List.foldl_cons]
  exact congrArg (back.foldl addName) hfound.symm

theorem Repeats.append {names' : List String} (h : Repeats names names') (back : List String) :
    Repeats (names ++ back) (names' ++ back) := by
  obtain ⟨hname⟩ := h
  rw [List.append_assoc, List.append_assoc, List.cons_append]
  exact .intro hname

/-- A list comes from the names that are collected from it by putting in later occurrences. -/
theorem repeats_firstOccurrences (names : List String) :
    Relation.ReflTransGen Repeats (firstOccurrences names) names := by
  induction names using List.reverseRecOn with
  | nil => exact .refl
  | append_singleton names name ih =>
    rw [firstOccurrences_concat, addName]
    split
    · next hname =>
      have hrepeats : Repeats (names ++ []) (names ++ [name]) := .intro (mem_firstOccurrences.mp hname)
      rw [List.append_nil] at hrepeats
      exact ih.tail hrepeats
    · exact ih.lift (· ++ [name]) fun _ _ h => h.append [name]

/-- The same names are collected from two lists exactly when one becomes the other by putting in and taking out later
occurrences of names. -/
theorem eqvGen_repeats_iff {names' : List String} :
    Relation.EqvGen Repeats names names' ↔ firstOccurrences names = firstOccurrences names' := by
  constructor
  · intro h
    induction h with
    | rel _ _ h => exact h.firstOccurrences_eq
    | refl => rfl
    | symm _ _ _ ih => exact ih.symm
    | trans _ _ _ _ _ ih ih' => exact ih.trans ih'
  · intro h
    have hcollected (names : List String) : Relation.EqvGen Repeats (firstOccurrences names) names :=
      Relation.EqvGen.reflTransGen_le_eqvGen _ _ _ (repeats_firstOccurrences names)
    have hnames := (hcollected names).symm
    rw [h] at hnames
    exact hnames.trans _ _ _ (hcollected names')

/-! ### Some of the names -/

variable {q : String → Bool}

theorem filter_addName (seen : List String) (name : String) :
    (addName seen name).filter q = if q name then addName (seen.filter q) name else seen.filter q := by
  cases hq : q name with
  | true =>
    have hmem : name ∈ seen.filter q ↔ name ∈ seen := by rw [List.mem_filter, and_iff_left hq]
    by_cases hname : name ∈ seen
    · rw [addName, if_pos hname, if_pos rfl, addName, if_pos (hmem.mpr hname)]
    · rw [addName, if_neg hname, if_pos rfl, addName, if_neg (fun h => hname (hmem.mp h)), List.filter_append,
        List.filter_cons_of_pos hq]
      rfl
  | false =>
    rw [if_neg Bool.false_ne_true, addName]
    split
    · rfl
    · rw [List.filter_append, List.filter_cons_of_neg (Bool.eq_false_iff.mp hq)]
      exact List.append_nil _

theorem filter_foldl_addName (seen names : List String) :
    (names.foldl addName seen).filter q = (names.filter q).foldl addName (seen.filter q) := by
  induction names generalizing seen with
  | nil => rfl
  | cons name names ih =>
    rw [List.foldl_cons, ih, filter_addName]
    cases hq : q name with
    | true => rw [List.filter_cons_of_pos hq, if_pos rfl, List.foldl_cons]
    | false => rw [List.filter_cons_of_neg (Bool.eq_false_iff.mp hq), if_neg Bool.false_ne_true]

/-- Names that are left out do not change the order of the others. -/
theorem filter_firstOccurrences (names : List String) :
    (firstOccurrences names).filter q = firstOccurrences (names.filter q) :=
  filter_foldl_addName [] names

/-! ### Repetitions -/

/-- The first name that is there already when it comes: the ones before it are distinct. -/
def FirstRepeat (names : List String) (name : String) : Prop :=
  ∃ before after, names = before ++ name :: after ∧ before.Nodup ∧ name ∈ before

theorem firstRepeated_eq_none_iff_of_seen :
    firstRepeated seen names = none ↔ names.Nodup ∧ ∀ x ∈ names, x ∉ seen := by
  induction names generalizing seen with
  | nil => simp [firstRepeated]
  | cons name names ih =>
    rw [firstRepeated]
    split
    · next hname => simp [hname]
    · next hname =>
      rw [ih, List.nodup_cons]
      constructor
      · rintro ⟨hnodup, hseen⟩
        refine ⟨⟨fun hmem => hseen name hmem (by simp), hnodup⟩, fun x hx => ?_⟩
        rcases List.mem_cons.mp hx with rfl | hx
        · exact hname
        · exact fun hmem => hseen x hx (List.mem_cons_of_mem _ hmem)
      · rintro ⟨⟨hnew, hnodup⟩, hseen⟩
        refine ⟨hnodup, fun x hx hmem => ?_⟩
        rcases List.mem_cons.mp hmem with rfl | hmem
        · exact hnew hx
        · exact hseen x (List.mem_cons_of_mem _ hx) hmem

theorem firstRepeated_eq_none_iff : firstRepeated [] names = none ↔ names.Nodup := by
  rw [firstRepeated_eq_none_iff_of_seen]
  simp

theorem exists_of_firstRepeated (h : firstRepeated seen names = some name) :
    ∃ before after, names = before ++ name :: after ∧ before.Nodup ∧ (∀ x ∈ before, x ∉ seen) ∧
      (name ∈ before ∨ name ∈ seen) := by
  induction names generalizing seen with
  | nil => cases h
  | cons y names ih =>
    rw [firstRepeated] at h
    split at h
    · next hy =>
      cases h
      exact ⟨[], names, rfl, List.nodup_nil, by simp, .inr hy⟩
    · next hy =>
      obtain ⟨before, after, rfl, hnodup, hnew, hname⟩ := ih h
      refine ⟨y :: before, after, rfl, List.nodup_cons.mpr ⟨fun hmem => ?_, hnodup⟩, fun x hx => ?_, ?_⟩
      · exact hnew y hmem (by simp)
      · rcases List.mem_cons.mp hx with rfl | hx
        · exact hy
        · exact fun hmem => hnew x hx (List.mem_cons_of_mem _ hmem)
      · rcases hname with hmem | hmem
        · exact .inl (List.mem_cons_of_mem _ hmem)
        · rcases List.mem_cons.mp hmem with rfl | hmem
          · exact .inl (by simp)
          · exact .inr hmem

theorem firstRepeat_of_firstRepeated (h : firstRepeated [] names = some name) :
    FirstRepeat names name := by
  obtain ⟨before, after, hnames, hnodup, -, hmem⟩ := exists_of_firstRepeated h
  exact ⟨before, after, hnames, hnodup, by simpa using hmem⟩

end TestScribe

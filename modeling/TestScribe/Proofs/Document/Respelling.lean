import Mathlib.Data.List.Nodup
import Mathlib.Logic.Relation
import TestScribe.Proofs.Document.Fields

/-!
# Spellings of a document

`Respelled` is one change to a value, at any depth, that does not change the document: a field with its
default is left out of a record, or a field that the record does not know is put in. A codec is `Faithful`
about a document if it is read back as it was written, and also after such a change. Lists are faithful
about their items (`Faithful.list`), and records about their fields (`IsRecord.faithful`). Any number of
changes is a path of `Respelled` (`Faithful.decode_respellings`).
-/

namespace TestScribe

/-- One change to a value of a shape. Only records are changed, never maps. -/
inductive Shape.Respelled : Shape → Json → Json → Prop
  | drop {kind : RecordKind} {f : Field} {v : Json} (before after : List (String × Json))
      (hf : f ∈ kind.fields) (hdefault : f.default? = some v) :
      Respelled (.record kind) (.obj (before ++ (f.name, v) :: after)) (.obj (before ++ after))
  | add {kind : RecordKind} {name : String} (v : Json) (before after : List (String × Json))
      (hunknown : ∀ f ∈ kind.fields, f.name ≠ name) :
      Respelled (.record kind) (.obj (before ++ after)) (.obj (before ++ (name, v) :: after))
  | field {kind : RecordKind} {f : Field} {v v' : Json} (before after : List (String × Json))
      (hf : f ∈ kind.fields) (h : Respelled f.shape v v') :
      Respelled (.record kind) (.obj (before ++ (f.name, v) :: after))
        (.obj (before ++ (f.name, v') :: after))
  | item {s : Shape} {v v' : Json} (before after : List Json) (h : Respelled s v v') :
      Respelled (.list s) (.arr (before ++ v :: after)) (.arr (before ++ v' :: after))
  | value {s : Shape} {v v' : Json} (h : Respelled s v v') : Respelled (.orNull s) v v'

theorem Shape.Respelled.ne_null {s : Shape} {v v' : Json} (h : s.Respelled v v') : v ≠ .null := by
  induction h with
  | value _ ih => exact ih
  | _ => exact fun he => nomatch he

/-- What is read as `a` is written so that it is read as `a` again, and every respelling of it is. -/
structure Codec.Faithful {α : Type} (c : Codec α) (s : Shape) (a : α) : Prop where
  back : ∀ v, c.decode v = some a → c.decode (c.encode a) = some a
  kept : ∀ v v', s.Respelled v v' → c.decode v = some a → c.decode v' = some a

/-- Everything that is written is read back. -/
def Codec.Inverse {α : Type} (c : Codec α) : Prop :=
  ∀ a, c.decode (c.encode a) = some a

variable {α β : Type}

namespace Codec

variable {c : Codec α} {s : Shape} {v : Json}

theorem Faithful.decode_respellings {a : α} {v' : Json} (h : c.Faithful s a)
    (hr : Relation.ReflTransGen s.Respelled v v') (hv : c.decode v = some a) : c.decode v' = some a := by
  induction hr with
  | refl => exact hv
  | tail _ hlast ih => exact h.kept _ _ hlast ih

/-! ### Lists -/

theorem mapM_eq_some_iff {f : β → Option α} {l : List β} {as : List α} :
    l.mapM f = some as ↔ l.map f = as.map some := by
  induction l generalizing as with
  | nil => cases as <;> simp
  | cons b l ih =>
    rw [List.mapM_cons, List.map_cons]
    constructor
    · intro h
      obtain ⟨a, ha, h⟩ := Option.bind_eq_some_iff.mp h
      obtain ⟨rest, hrest, h⟩ := Option.bind_eq_some_iff.mp h
      cases h
      rw [ha, ih.mp hrest, List.map_cons]
    · intro h
      cases as with
      | nil => cases h
      | cons a as =>
        rw [List.map_cons, List.cons.injEq] at h
        rw [h.1, ih.mpr h.2]
        rfl

theorem decode_list_iff {as : List α} :
    c.list.decode v = some as ↔ ∃ items, v = .arr items ∧ items.map c.decode = as.map some := by
  show v.toList? c.decode = some as ↔ _
  cases v with
  | arr items => simp [Json.toList?, mapM_eq_some_iff]
  | _ => simp [Json.toList?]

theorem Faithful.list {l : List α} (h : ∀ a ∈ l, c.Faithful s a) : c.list.Faithful (.list s) l := by
  constructor
  · intro v hv
    obtain ⟨items, -, hitems⟩ := decode_list_iff.mp hv
    refine decode_list_iff.mpr ⟨_, rfl, ?_⟩
    rw [List.map_map]
    refine List.map_congr_left fun a ha => ?_
    obtain ⟨item, -, hitem⟩ : ∃ item ∈ items, c.decode item = some a := by
      rw [← List.mem_map, hitems]
      exact List.mem_map_of_mem ha
    exact (h a ha).back item hitem
  · intro v v' hr hv
    cases hr with
    | @item _ w w' before after hr =>
    obtain ⟨items, hitems, hmap⟩ := decode_list_iff.mp hv
    cases hitems
    refine decode_list_iff.mpr ⟨_, rfl, hmap ▸ ?_⟩
    -- The item that is respelled is read as one of the list, and so is its respelling.
    obtain ⟨a, ha, hw⟩ : ∃ a ∈ l, some a = c.decode w := by
      rw [← List.mem_map, ← hmap]
      exact List.mem_map_of_mem (by simp)
    have hw' := (h a ha).kept w w' hr hw.symm
    rw [List.map_append, List.map_append, List.map_cons, List.map_cons, hw', hw]

/-! ### Values that may be null -/

theorem decode_orNull_of_ne (hv : v ≠ .null) : c.orNull.decode v = (c.decode v).map some := by
  show v.orNull? c.decode = _
  cases v with
  | null => exact absurd rfl hv
  | _ => rfl

theorem decode_orNull_of_decode {a : α} (hnull : c.decode .null = none) (h : c.decode v = some a) :
    c.orNull.decode v = some (some a) := by
  have hv : v ≠ .null := by
    rintro rfl
    rw [hnull] at h
    cases h
  rw [decode_orNull_of_ne hv, h, Option.map_some]

theorem Faithful.orNull {a : Option α} (hnull : c.decode .null = none) (h : ∀ b, c.Faithful s b) :
    c.orNull.Faithful (.orNull s) a := by
  constructor
  · intro v hv
    cases a with
    | none => rfl
    | some b =>
      have hne : v ≠ .null := by
        rintro rfl
        cases hv
      rw [decode_orNull_of_ne hne] at hv
      obtain ⟨b', hb, he⟩ := Option.map_eq_some_iff.mp hv
      cases he
      exact decode_orNull_of_decode hnull ((h b).back v hb)
  · intro v v' hr hv
    cases hr with
    | value hr =>
      rw [decode_orNull_of_ne hr.ne_null] at hv
      obtain ⟨b, hb, rfl⟩ := Option.map_eq_some_iff.mp hv
      exact decode_orNull_of_decode hnull ((h b).kept v v' hr hb)

/-- A value without records has no other spelling. -/
theorem Faithful.plain {a : α} (h : c.Faithful s a) : c.Faithful .plain a :=
  ⟨h.back, fun _ _ hr => nomatch hr⟩

/-! ### Values without records -/

theorem Inverse.faithful (h : c.Inverse) (a : α) : c.Faithful .plain a :=
  ⟨fun _ _ => h a, fun _ _ hr => nomatch hr⟩

theorem inverse_text : text.Inverse := fun _ => rfl

theorem inverse_flag : flag.Inverse := fun _ => rfl

theorem Inverse.list (h : c.Inverse) : c.list.Inverse := fun l => by
  refine decode_list_iff.mpr ⟨_, rfl, ?_⟩
  rw [List.map_map]
  exact List.map_congr_left fun a _ => h a

theorem Inverse.dict (h : c.Inverse) : c.dict.Inverse := fun d => by
  have hentries : (d.entries.map fun e => (e.1, c.encode e.2)).mapM
      (fun e => (c.decode e.2).map fun a => (e.1, a)) = some d.entries := by
    rw [mapM_eq_some_iff, List.map_map]
    refine List.map_congr_left fun e _ => ?_
    show (c.decode (c.encode e.2)).map _ = _
    rw [h]
    rfl
  show Option.map Dict.ofList (List.mapM _ _) = _
  rw [hentries, Option.map_some, Dict.ofList_entries]

end Codec

/-! ### Entries of a record -/

namespace Dict

variable {k name : String} {v : α} {before after : List (String × α)}

theorem find_append (k : String) (l l' : List (String × α)) :
    find k (l ++ l') = (find k l).or (find k l') := by
  induction l with
  | nil => rfl
  | cons e l ih =>
    rw [List.cons_append, find, find]
    split
    · rfl
    · exact ih

theorem find_middle_of_ne (h : name ≠ k) (v : α) (before after : List (String × α)) :
    find k (before ++ (name, v) :: after) = find k (before ++ after) := by
  rw [find_append, find_append, find, if_neg h]

theorem find_of_countP_eq_zero {l : List (String × α)} (h : l.countP (fun e => e.1 == k) = 0) :
    find k l = none := by
  induction l with
  | nil => rfl
  | cons e l ih =>
    rw [List.countP_cons] at h
    have hne : e.1 ≠ k := by
      intro he
      simp [he] at h
    rw [find, if_neg hne]
    exact ih (by omega)

theorem countP_middle (k name : String) (v : α) (before after : List (String × α)) :
    (before ++ (name, v) :: after).countP (fun e => e.1 == k) =
      (before ++ after).countP (fun e => e.1 == k) + if name = k then 1 else 0 := by
  rw [List.countP_append, List.countP_append, List.countP_cons, Nat.add_assoc]
  simp

/-- A name that is there once is there at this place only. -/
theorem find_middle_self (h : (before ++ (k, v) :: after).countP (fun e => e.1 == k) ≤ 1) :
    find k (before ++ (k, v) :: after) = some v ∧ find k (before ++ after) = none := by
  rw [countP_middle, if_pos rfl, List.countP_append] at h
  have hbefore : find k before = none := find_of_countP_eq_zero (by omega)
  have hafter : find k after = none := find_of_countP_eq_zero (by omega)
  rw [find_append, find_append, find, if_pos rfl, hbefore, hafter]
  exact ⟨rfl, rfl⟩

theorem countP_le_one {l : List (String × α)} (h : (l.map Prod.fst).Nodup) (k : String) :
    l.countP (fun e => e.1 == k) ≤ 1 := by
  have hcount := List.nodup_iff_count_le_one.mp h k
  rwa [List.count, List.countP_map] at hcount

end Dict

/-- No field of the record is there twice. -/
def RecordKind.Once (kind : RecordKind) (entries : List (String × Json)) : Prop :=
  ∀ f ∈ kind.fields, entries.countP (fun e => e.1 == f.name) ≤ 1

/-- What becomes of the value of a field when its record is respelled. -/
inductive Field.Kept (f : Field) : Option Json → Option Json → Prop
  | same (x : Option Json) : Kept f x x
  | dropped {v : Json} (hdefault : f.default? = some v) : Kept f (some v) none
  | respelled {v v' : Json} (h : f.shape.Respelled v v') : Kept f (some v) (some v')

theorem RecordKind.eq_of_name_eq {kind : RecordKind} {f g : Field} (hf : f ∈ kind.fields)
    (hg : g ∈ kind.fields) (h : f.name = g.name) : f = g :=
  List.inj_on_of_nodup_map kind.nodup_names hf hg h

/-- A respelling of a record keeps each of its fields. -/
theorem Shape.Respelled.record {kind : RecordKind} {entries : List (String × Json)} {v' : Json}
    (h : (Shape.record kind).Respelled (.obj entries) v') (honce : kind.Once entries) :
    ∃ entries', v' = .obj entries' ∧ kind.Once entries' ∧
      ∀ f ∈ kind.fields, f.Kept (Dict.find f.name entries) (Dict.find f.name entries') := by
  cases h with
  | @drop _ f v before after hf hdefault =>
    refine ⟨_, rfl, fun g hg => ?_, fun g hg => ?_⟩
    · have hle := honce g hg
      rw [Dict.countP_middle] at hle
      omega
    · rcases Decidable.em (f.name = g.name) with heq | hne
      · obtain rfl := RecordKind.eq_of_name_eq hf hg heq
        obtain ⟨hfind, hfind'⟩ := Dict.find_middle_self (honce f hf)
        rw [hfind, hfind']
        exact .dropped hdefault
      · rw [Dict.find_middle_of_ne hne]
        exact .same _
  | @add _ name v before after hunknown =>
    refine ⟨_, rfl, fun g hg => ?_, fun g hg => ?_⟩
    · rw [Dict.countP_middle, if_neg (hunknown g hg).symm]
      exact honce g hg
    · rw [Dict.find_middle_of_ne (hunknown g hg).symm]
      exact .same _
  | @field _ f v v' before after hf h =>
    refine ⟨_, rfl, fun g hg => ?_, fun g hg => ?_⟩
    · have hle := honce g hg
      rw [Dict.countP_middle] at hle ⊢
      exact hle
    · rcases Decidable.em (f.name = g.name) with heq | hne
      · obtain rfl := RecordKind.eq_of_name_eq hf hg heq
        have honce' := honce f hf
        have hfind := (Dict.find_middle_self honce').1
        rw [Dict.countP_middle, ← Dict.countP_middle f.name f.name v'] at honce'
        rw [hfind, (Dict.find_middle_self honce').1]
        exact .respelled h
      · rw [Dict.find_middle_of_ne hne, Dict.find_middle_of_ne hne]
        exact .same _

/-! ### Records -/

/-- Reading a field depends on its value alone, up to its spelling. -/
structure Member.Lawful (m : Member α) (a : α) : Prop where
  back : ∀ entries entries', m.Reads entries a → Dict.find m.name entries' = some (m.write a) →
    m.Reads entries' a
  kept : ∀ entries entries', m.Kept (Dict.find m.name entries) (Dict.find m.name entries') →
    m.Reads entries a → m.Reads entries' a

namespace Member

variable {a : α} {name : String} {s : Shape} {c : Codec β} {get : α → β} {default : Json} {missing : β}
  {entries : List (String × Json)}

theorem reads_required_iff : (required name s c get).Reads entries a ↔
    ∃ v, Dict.find name entries = some v ∧ c.decode v = some (get a) :=
  Option.bind_eq_some_iff

theorem reads_optional_iff : (optional name s default c missing get).Reads entries a ↔
    Dict.find name entries = none ∧ missing = get a ∨
      ∃ v, Dict.find name entries = some v ∧ c.decode v = some (get a) := by
  show Json.optional entries name c.decode missing = some (get a) ↔ _
  rw [Json.optional]
  cases Dict.find name entries <;> simp

theorem lawful_required (h : c.Faithful s (get a)) : (required name s c get).Lawful a := by
  constructor
  · intro entries entries' hread hfind
    obtain ⟨v, -, hv⟩ := reads_required_iff.mp hread
    exact reads_required_iff.mpr ⟨_, hfind, h.back v hv⟩
  · intro entries entries' hkept hread
    obtain ⟨v, hfind, hv⟩ := reads_required_iff.mp hread
    rw [reads_required_iff]
    change Field.Kept _ (Dict.find name entries) (Dict.find name entries') at hkept
    rw [hfind] at hkept
    generalize Dict.find name entries' = x at hkept ⊢
    cases hkept with
    | same => exact ⟨v, rfl, hv⟩
    | dropped hdefault => cases hdefault
    | respelled hr => exact ⟨_, rfl, h.kept v _ hr hv⟩

theorem lawful_optional (h : c.Faithful s (get a)) (hdefault : c.decode default = some missing) :
    (optional name s default c missing get).Lawful a := by
  constructor
  · intro entries entries' hread hfind
    refine reads_optional_iff.mpr (.inr ⟨_, hfind, ?_⟩)
    rcases reads_optional_iff.mp hread with ⟨-, hmissing⟩ | ⟨v, -, hv⟩
    · exact h.back default (hmissing ▸ hdefault)
    · exact h.back v hv
  · intro entries entries' hkept hread
    rw [reads_optional_iff] at hread ⊢
    change Field.Kept _ (Dict.find name entries) (Dict.find name entries') at hkept
    generalize Dict.find name entries = x at hkept hread
    generalize Dict.find name entries' = x' at hkept ⊢
    cases hkept with
    | same => exact hread
    | @dropped v hv =>
      obtain rfl : default = v := Option.some.inj hv
      rcases hread with ⟨hnone, -⟩ | ⟨w, hw, hread⟩
      · cases hnone
      · cases hw
        rw [hdefault] at hread
        exact .inl ⟨rfl, Option.some.inj hread⟩
    | @respelled v v' hr =>
      rcases hread with ⟨hnone, -⟩ | ⟨w, hw, hread⟩
      · cases hnone
      · cases hw
        exact .inr ⟨v', rfl, h.kept v v' hr hread⟩

end Member

/-- The entries that are written of `a`. -/
def Member.written (members : List (Member α)) (a : α) : List (String × Json) :=
  members.map fun m => (m.name, m.write a)

/-- The codec of a record reads and writes it field by field. -/
structure Codec.IsRecord (c : Codec α) (kind : RecordKind) (members : List (Member α)) : Prop where
  fields_eq : kind.fields = members.map Member.toField
  encode_eq : ∀ a, c.encode a = .obj (Member.written members a)
  decode_iff : ∀ v a, c.decode v = some a ↔
    ∃ entries, v.record? (members.map fun m => m.name) = some entries ∧
      ∀ m ∈ members, m.Reads entries a

namespace Codec.IsRecord

variable {c : Codec α} {kind : RecordKind} {members : List (Member α)} {a : α}

theorem names_eq (h : c.IsRecord kind members) :
    kind.fields.map Field.name = members.map fun m => m.name := by
  rw [h.fields_eq, List.map_map]
  rfl

theorem record?_obj_iff (h : c.IsRecord kind members) {entries entries' : List (String × Json)} :
    (Json.obj entries).record? (members.map fun m => m.name) = some entries' ↔
      entries = entries' ∧ kind.Once entries := by
  have hall : ((members.map fun m => m.name).all fun name =>
      entries.countP (fun e => e.1 == name) ≤ 1) = true ↔ kind.Once entries := by
    rw [← h.names_eq, RecordKind.Once]
    simp
  rw [Json.record?]
  split
  · next honce => simp [hall.mp honce]
  · next honce => simp [mt hall.mpr honce]

theorem nodup_written (h : c.IsRecord kind members) : ((Member.written members a).map Prod.fst).Nodup := by
  rw [Member.written, List.map_map]
  exact h.names_eq ▸ kind.nodup_names

theorem once_written (h : c.IsRecord kind members) : kind.Once (Member.written members a) :=
  fun f _ => Dict.countP_le_one h.nodup_written f.name

theorem find_written (h : c.IsRecord kind members) {m : Member α} (hm : m ∈ members) :
    Dict.find m.name (Member.written members a) = some (m.write a) := by
  have hmem : (m.name, m.write a) ∈ Member.written members a := List.mem_map_of_mem hm
  have hcount := Dict.countP_le_one (h.nodup_written (a := a)) m.name
  obtain ⟨before, after, heq⟩ := List.append_of_mem hmem
  rw [heq] at hcount ⊢
  exact (Dict.find_middle_self hcount).1

theorem faithful (h : c.IsRecord kind members) (hlawful : ∀ m ∈ members, m.Lawful a) :
    c.Faithful (.record kind) a := by
  constructor
  · intro v hv
    obtain ⟨entries, -, hreads⟩ := (h.decode_iff v a).mp hv
    refine (h.decode_iff _ a).mpr ⟨Member.written members a, ?_, fun m hm => ?_⟩
    · rw [h.encode_eq]
      exact h.record?_obj_iff.mpr ⟨rfl, h.once_written⟩
    · exact (hlawful m hm).back entries _ (hreads m hm) (h.find_written hm)
  · intro v v' hr hv
    obtain ⟨entries, hrecord, hreads⟩ := (h.decode_iff v a).mp hv
    obtain ⟨fields, rfl⟩ : ∃ fields, v = .obj fields := by
      cases hr <;> exact ⟨_, rfl⟩
    obtain ⟨rfl, honce⟩ := h.record?_obj_iff.mp hrecord
    obtain ⟨entries', rfl, honce', hkept⟩ := hr.record honce
    refine (h.decode_iff _ a).mpr ⟨entries', h.record?_obj_iff.mpr ⟨rfl, honce'⟩, fun m hm => ?_⟩
    have hfield : m.toField ∈ kind.fields := h.fields_eq ▸ List.mem_map_of_mem hm
    exact (hlawful m hm).kept _ entries' (hkept _ hfield) (hreads m hm)

end Codec.IsRecord

end TestScribe

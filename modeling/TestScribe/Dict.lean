/-!
# Dictionaries with text keys

A dictionary keeps its entries in the order of their keys, one entry a key, so that two dictionaries
with the same entries are equal. `get?` is its view: `get?_insert` says what an insertion does to
it, and `ext` that it determines the dictionary.
-/

namespace TestScribe

structure Dict (α : Type) where
  entries : List (String × α)
  sorted : entries.Pairwise fun a b => a.1 < b.1

namespace Dict

variable {α β : Type}

instance [DecidableEq α] : DecidableEq (Dict α) := fun a b =>
  if h : a.entries = b.entries then isTrue (by cases a; cases b; cases h; rfl)
  else isFalse fun e => h (e ▸ rfl)

def empty : Dict α :=
  ⟨[], .nil⟩

instance : EmptyCollection (Dict α) :=
  ⟨empty⟩

instance : Inhabited (Dict α) :=
  ⟨empty⟩

def find (key : String) : List (String × α) → Option α
  | [] => none
  | (k, v) :: rest => if k = key then some v else find key rest

/-- Put an entry at its place in the order; an entry with the same key is replaced. -/
def place (key : String) (value : α) : List (String × α) → List (String × α)
  | [] => [(key, value)]
  | (k, v) :: rest =>
    if key < k then (key, value) :: (k, v) :: rest
    else if k = key then (key, value) :: rest
    else (k, v) :: place key value rest

theorem mem_place {key : String} {value : α} {e : String × α} :
    ∀ {l : List (String × α)}, e ∈ place key value l → e = (key, value) ∨ e ∈ l
  | [], h => by simpa [place] using h
  | (k, v) :: rest, h => by
    unfold place at h
    split at h
    · simpa using h
    · split at h
      · rcases List.mem_cons.mp h with h | h
        · exact .inl h
        · exact .inr (List.mem_cons_of_mem _ h)
      · rcases List.mem_cons.mp h with h | h
        · exact .inr (h ▸ List.mem_cons_self)
        · exact (mem_place h).imp id (List.mem_cons_of_mem _)

theorem lt_of_not_lt_of_ne {a b : String} (h : ¬ a < b) (hne : b ≠ a) : b < a :=
  Std.not_le.mp fun hab => h (Std.lt_of_le_of_ne hab hne.symm)

theorem sorted_place (key : String) (value : α) :
    ∀ {l : List (String × α)}, l.Pairwise (fun a b => a.1 < b.1) →
      (place key value l).Pairwise fun a b => a.1 < b.1
  | [], _ => by simp [place]
  | (k, v) :: rest, h => by
    have ⟨hk, hr⟩ := List.pairwise_cons.mp h
    unfold place
    split
    · next hlt =>
      refine List.pairwise_cons.mpr ⟨fun e he => ?_, h⟩
      rcases List.mem_cons.mp he with rfl | he
      · exact hlt
      · exact String.lt_trans hlt (hk e he)
    · next hlt =>
      split
      · next heq =>
        subst heq
        exact List.pairwise_cons.mpr ⟨hk, hr⟩
      · next hne =>
        refine List.pairwise_cons.mpr ⟨fun e he => ?_, sorted_place key value hr⟩
        rcases mem_place he with rfl | he
        · exact lt_of_not_lt_of_ne hlt hne
        · exact hk e he

def get? (d : Dict α) (key : String) : Option α :=
  find key d.entries

/-- Put a value under a key, in the place of an earlier one. -/
def insert (d : Dict α) (key : String) (value : α) : Dict α :=
  ⟨place key value d.entries, sorted_place key value d.sorted⟩

/-- The dictionary of a list of entries; of two entries with one key the later counts. -/
def ofList (l : List (String × α)) : Dict α :=
  l.foldl (fun d e => d.insert e.1 e.2) empty

def contains (d : Dict α) (key : String) : Bool :=
  (d.get? key).isSome

def size (d : Dict α) : Nat :=
  d.entries.length

def isEmpty (d : Dict α) : Bool :=
  d.entries.isEmpty

def mapValues (f : α → β) (d : Dict α) : Dict β :=
  ⟨d.entries.map fun e => (e.1, f e.2), by
    rw [List.pairwise_map]; exact d.sorted⟩

/-- The entries of both dictionaries; where both have a key, the value of `other` counts. -/
def merge (d other : Dict α) : Dict α :=
  other.entries.foldl (fun d e => d.insert e.1 e.2) d

theorem find_place (key k : String) (value : α) :
    ∀ l : List (String × α), find k (place key value l) = if key = k then some value else find k l
  | [] => by simp [place, find]
  | (k', v') :: rest => by
    unfold place
    split
    · simp [find]
    · split
      · next heq => subst heq; by_cases h : k' = k <;> simp [find, h]
      · next hne =>
        simp only [find, find_place key k value rest]
        by_cases h : k' = k
        · have : key ≠ k := fun e => hne (h.trans e.symm)
          simp [h, this]
        · simp [h]

@[simp]
theorem get?_insert (d : Dict α) (key k : String) (value : α) :
    (d.insert key value).get? k = if key = k then some value else d.get? k :=
  find_place key k value d.entries

@[simp]
theorem get?_empty (k : String) : (empty : Dict α).get? k = none := rfl

theorem find_map (f : α → β) (k : String) :
    ∀ l : List (String × α), find k (l.map fun e => (e.1, f e.2)) = (find k l).map f
  | [] => rfl
  | (k', v) :: rest => by
    by_cases h : k' = k
    · simp [find, h]
    · simp [find, h, find_map f k rest]

@[simp]
theorem get?_mapValues (f : α → β) (d : Dict α) (k : String) :
    (d.mapValues f).get? k = (d.get? k).map f :=
  find_map f k d.entries

theorem get?_of_isEmpty {d : Dict α} (h : d.isEmpty = true) (k : String) : d.get? k = none := by
  rw [get?, List.isEmpty_iff.mp h, find]

/-- A key below all keys of a list has no entry there. -/
theorem find_of_lt {k : String} :
    ∀ {l : List (String × α)}, (∀ e ∈ l, k < e.1) → find k l = none
  | [], _ => rfl
  | (k', v) :: rest, h => by
    have hne : k' ≠ k := fun e => String.lt_irrefl k (e ▸ h (k', v) (by simp))
    rw [find, if_neg hne]
    exact find_of_lt fun e he => h e (by simp [he])

theorem eq_of_find :
    ∀ {l₁ l₂ : List (String × α)}, l₁.Pairwise (fun a b => a.1 < b.1) →
      l₂.Pairwise (fun a b => a.1 < b.1) → (∀ k, find k l₁ = find k l₂) → l₁ = l₂
  | [], [], _, _, _ => rfl
  | [], (k, v) :: _, _, _, h => by simpa [find] using h k
  | (k, v) :: _, [], _, _, h => by simpa [find] using h k
  | (k, v) :: r₁, (k', v') :: r₂, h₁, h₂, h => by
    obtain ⟨hk, hr₁⟩ := List.pairwise_cons.mp h₁
    obtain ⟨hk', hr₂⟩ := List.pairwise_cons.mp h₂
    have below {a b : String} {x : α} {r : List (String × α)} (hab : a < b)
        (hr : ∀ e ∈ r, b < e.1) : find a ((b, x) :: r) = none :=
      find_of_lt fun e he => by
        rcases List.mem_cons.mp he with rfl | he
        · exact hab
        · exact String.lt_trans hab (hr e he)
    have hkey : k = k' := Decidable.byContradiction fun hne => by
      by_cases hlt : k < k'
      · have hx := h k
        rw [below hlt hk'] at hx
        simp [find] at hx
      · have hx := h k'
        rw [below (lt_of_not_lt_of_ne hlt (Ne.symm hne)) hk] at hx
        simp [find] at hx
    subst hkey
    have hvalue : v = v' := by simpa [find] using h k
    have hrest : r₁ = r₂ := eq_of_find hr₁ hr₂ fun x => by
      by_cases hx : k = x
      · subst hx
        rw [find_of_lt hk, find_of_lt hk']
      · simpa [find, hx] using h x
    rw [hvalue, hrest]

/-- A dictionary is determined by its view. -/
theorem ext {d e : Dict α} (h : ∀ k, d.get? k = e.get? k) : d = e := by
  have he := eq_of_find d.sorted e.sorted h
  cases d; cases e; cases he; rfl

theorem isEmpty_eq_false_of_ne {d : Dict α} (hd : d ≠ ∅) : d.isEmpty = false := by
  refine Bool.eq_false_iff.mpr fun hempty => hd (ext fun k => ?_)
  rw [get?_of_isEmpty hempty]
  exact (get?_empty k).symm

theorem get?_foldl_insert (k : String) :
    ∀ {l : List (String × α)} {d : Dict α}, l.Pairwise (fun a b => a.1 < b.1) →
      (l.foldl (fun d e => d.insert e.1 e.2) d).get? k = (find k l).or (d.get? k)
  | [], _, _ => rfl
  | (k', v) :: rest, d, h => by
    have ⟨hk', hrest⟩ := List.pairwise_cons.mp h
    rw [List.foldl_cons, get?_foldl_insert k hrest, get?_insert, find]
    by_cases hk : k' = k
    · subst hk
      rw [if_pos rfl, if_pos rfl, find_of_lt hk']
      rfl
    · rw [if_neg hk, if_neg hk]

@[simp]
theorem get?_merge (d other : Dict α) (k : String) :
    (d.merge other).get? k = (other.get? k).or (d.get? k) :=
  get?_foldl_insert k other.sorted

/-- A dictionary is the one of its own entries. -/
theorem ofList_entries (d : Dict α) : ofList d.entries = d :=
  ext fun k => by
    rw [ofList, get?_foldl_insert k d.sorted, get?_empty, Option.or_none, get?]

end Dict

end TestScribe

import TestScribe.Model.Draft
import TestScribe.Proofs.Names

/-!
# What declarations leave in a model

The mappings of a model are those its declarations make, kind by kind and name by name in the order of
declaration (`mappingsOf_ofDeclarations`), and its object table holds the last object declared for each
value (`object?_ofDeclarations`). Its places are the names declared as places and those of the accessors
and mutators, and after them what else the transitions mention (`places_ofDeclarations`).
-/

namespace TestScribe

namespace Declaration

def mapping? : Declaration → Option Mapping
  | .mapping kind pattern operator => (Mapping.parse kind pattern operator).toOption
  | _ => none

def object? (value : String) : Declaration → Option String
  | .object v name => if v = value then some name else none
  | _ => none

def transition? : Declaration → Option Transition
  | .transition t => some t
  | _ => none

/-- The names that a declaration makes places at once. -/
def placeNames : Declaration → List String
  | .place name => [name]
  | .option name => [name]
  | .mapping kind pattern operator =>
    match Mapping.parse kind pattern operator with
    | .ok e => if e.kind = .action then [] else [e.name]
    | .error _ => []
  | _ => []

end Declaration

/-- The mappings of a kind and a name, in the order of their declarations. -/
def declaredMappings (ds : List Declaration) (kind : MappingKind) (name : String) : List Mapping :=
  (ds.filterMap Declaration.mapping?).filter fun e => e.kind = kind ∧ e.name = name

/-- The object declared last for a value. -/
def declaredObject? (ds : List Declaration) (value : String) : Option String :=
  (ds.filterMap (Declaration.object? value)).getLast?

/-- The places: the names made places by a declaration, then the names in the transitions' conditions. -/
def declaredPlaces (ds : List Declaration) : List String :=
  firstOccurrences (ds.flatMap Declaration.placeNames ++
    ((ds.filterMap Declaration.transition?).flatMap Transition.predicates).map Predicate.name)

/-- Declarations that add nothing may be left out. -/
theorem flatMap_filter_of_nil {α : Type} {f : Declaration → List α} {q : Declaration → Bool}
    (h : ∀ a, q a = false → f a = []) (ds : List Declaration) : (ds.filter q).flatMap f = ds.flatMap f := by
  induction ds with
  | nil => rfl
  | cons a ds ih =>
    cases ha : q a with
    | true => rw [List.filter_cons_of_pos ha, List.flatMap_cons, ih, List.flatMap_cons]
    | false => rw [List.filter_cons_of_neg (by simp [ha]), ih, List.flatMap_cons, h a ha, List.nil_append]

/-- A mapping is read when its pattern parses and its operator is not blank. -/
theorem Mapping.parse_eq_ok_iff {kind : MappingKind} {pattern operator : String} {e : Mapping} :
    Mapping.parse kind pattern operator = .ok e ↔
      Predicate.parse pattern = .ok e.pattern ∧ isBlankText operator = false ∧ e.kind = kind ∧
        e.operator = operator := by
  obtain ⟨kind', p', operator'⟩ := e
  rw [Mapping.parse]
  cases hpattern : Predicate.parse pattern with
  | error cause => simp
  | ok p =>
    cases hblank : isBlankText operator with
    | true => simp
    | false =>
      simp only [Bool.false_eq_true, if_false, Except.ok.injEq, Mapping.mk.injEq, true_and]
      constructor
      · rintro ⟨rfl, rfl, rfl⟩
        exact ⟨rfl, rfl, rfl⟩
      · rintro ⟨rfl, rfl, rfl⟩
        exact ⟨rfl, rfl, rfl⟩

theorem Declaration.mapping?_eq_some_iff {a : Declaration} {e : Mapping} :
    a.mapping? = some e ↔ ∃ pattern, a = .mapping e.kind pattern e.operator ∧
      Predicate.parse pattern = .ok e.pattern ∧ isBlankText e.operator = false := by
  constructor
  · intro h
    cases a with
    | mapping kind pattern operator =>
      rw [mapping?] at h
      cases hparse : Mapping.parse kind pattern operator with
      | error e => rw [hparse] at h; cases h
      | ok e' =>
        rw [hparse] at h
        obtain rfl := Option.some.inj h
        obtain ⟨hpattern, hblank, rfl, rfl⟩ := Mapping.parse_eq_ok_iff.mp hparse
        exact ⟨pattern, rfl, hpattern, hblank⟩
    | _ => cases h
  · rintro ⟨pattern, rfl, hpattern, hblank⟩
    rw [mapping?, Mapping.parse_eq_ok_iff.mpr ⟨hpattern, hblank, rfl, rfl⟩]
    rfl

namespace Draft

variable {d : Draft} {m : Model}

/-- A mapping changes nothing but the places, the mappings and what was refused. -/
theorem exists_apply_mapping (d : Draft) (kind : MappingKind) (pattern operator : String) :
    ∃ places mappings refused,
      d.apply (.mapping kind pattern operator) = { d with places, mappings, refused } := by
  rw [apply]
  split
  · rw [addMapping]
    split <;> exact ⟨_, _, _, rfl⟩
  · exact ⟨_, _, _, rfl⟩

/-- A list that grows at its end by what each declaration adds grows by what all of them add. -/
theorem collected_declare {α : Type} {list : Draft → List α} {added : Declaration → Option α}
    (h : ∀ d a, list (d.apply a) = list d ++ (added a).toList) (d : Draft) (ds : List Declaration) :
    list (d.declare ds) = list d ++ ds.filterMap added := by
  induction ds generalizing d with
  | nil => simp [declare]
  | cons a ds ih =>
    show list ((d.apply a).declare ds) = _
    rw [ih, h]
    cases hadded : added a <;> simp [hadded]

theorem mappings_apply (d : Draft) (a : Declaration) :
    (d.apply a).mappings = d.mappings ++ a.mapping?.toList := by
  cases a with
  | mapping kind pattern operator =>
    rw [apply, Declaration.mapping?]
    split
    · next e he =>
      rw [he, addMapping]
      split <;> rfl
    · next he => simp [he, refuse, Except.toOption]
  | _ => simp [apply, addPlace, Declaration.mapping?]

theorem mappings_declare (d : Draft) (ds : List Declaration) :
    (d.declare ds).mappings = d.mappings ++ ds.filterMap Declaration.mapping? :=
  collected_declare mappings_apply d ds

theorem object?_apply (d : Draft) (a : Declaration) (value : String) :
    (d.apply a).objects.get? value = (a.object? value).or (d.objects.get? value) := by
  cases a with
  | object v object =>
    rw [apply, Declaration.object?, Dict.get?_insert]
    split <;> simp
  | mapping kind pattern operator =>
    obtain ⟨_, _, _, hmapping⟩ := d.exists_apply_mapping kind pattern operator
    rw [hmapping]
    rfl
  | _ => rfl

theorem object?_declare (d : Draft) (ds : List Declaration) (value : String) :
    (d.declare ds).objects.get? value =
      (declaredObject? ds value).or (d.objects.get? value) := by
  induction ds generalizing d with
  | nil => rfl
  | cons a ds ih =>
    show ((d.apply a).declare ds).objects.get? value = _
    rw [ih, object?_apply, declaredObject?, declaredObject?]
    cases h : a.object? value with
    | none => simp [h]
    | some object =>
      rw [List.filterMap_cons_some h, List.getLast?_cons]
      cases (ds.filterMap (Declaration.object? value)).getLast? <;> simp

theorem transitions_apply (d : Draft) (a : Declaration) :
    (d.apply a).transitions = d.transitions ++ a.transition?.toList := by
  cases a with
  | mapping kind pattern operator =>
    obtain ⟨_, _, _, hmapping⟩ := d.exists_apply_mapping kind pattern operator
    rw [hmapping]
    exact (List.append_nil _).symm
  | _ => simp [apply, addPlace, Declaration.transition?]

theorem transitions_declare (d : Draft) (ds : List Declaration) :
    (d.declare ds).transitions = d.transitions ++ ds.filterMap Declaration.transition? :=
  collected_declare transitions_apply d ds

theorem places_apply (d : Draft) (a : Declaration) :
    (d.apply a).places = a.placeNames.foldl addName d.places := by
  cases a with
  | mapping kind pattern operator =>
    cases hparse : Mapping.parse kind pattern operator with
    | error e => simp [apply, Declaration.placeNames, hparse, refuse]
    | ok e =>
      by_cases hkind : e.kind = .action <;>
        simp [apply, Declaration.placeNames, hparse, hkind, addMapping, addPlace]
  | _ => rfl

theorem places_declare (d : Draft) (ds : List Declaration) :
    (d.declare ds).places = (ds.flatMap Declaration.placeNames).foldl addName d.places := by
  induction ds generalizing d with
  | nil => rfl
  | cons a ds ih =>
    show ((d.apply a).declare ds).places = _
    rw [ih, places_apply, List.flatMap_cons, List.foldl_append]

theorem eq_toModel_of_build (h : d.build = .ok m) : m = d.toModel := by
  rw [build] at h
  split at h
  · cases h
  split at h
  · cases h
  split at h
  · cases h
  split at h
  · cases h
  · cases h; rfl

end Draft

namespace Model

variable {system : String} {ds : List Declaration} {m : Model}

theorem mappingsOf_ofDeclarations (h : ofDeclarations system ds = .ok m) (kind : MappingKind)
    (name : String) : m.mappingsOf kind name = declaredMappings ds kind name := by
  rw [Draft.eq_toModel_of_build h, mappingsOf, Draft.toModel, MappingTable.get_ofList,
    Draft.mappings_declare, declaredMappings]
  rfl

theorem object?_ofDeclarations (h : ofDeclarations system ds = .ok m) (value : String) :
    m.object? value = declaredObject? ds value := by
  have hempty : (Draft.empty system).objects.get? value = none := Dict.get?_empty value
  rw [Draft.eq_toModel_of_build h, object?, Draft.toModel, Draft.object?_declare, hempty,
    Option.or_none]

theorem places_ofDeclarations (h : ofDeclarations system ds = .ok m) : m.places = declaredPlaces ds := by
  rw [Draft.eq_toModel_of_build h, Draft.toModel, Draft.allPlaces, Draft.places_declare,
    Draft.transitions_declare, declaredPlaces, firstOccurrences, List.foldl_append]
  rfl

end Model

end TestScribe

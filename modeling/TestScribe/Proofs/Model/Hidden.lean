import Mathlib.Data.List.Basic
import TestScribe.Proofs.Model.Validation

/-!
# Hidden names in a model

Models that say the same of what is not hidden are `SameButHidden`. Declarations make such models when they are
the same but for the mappings of hidden names (`withoutHiddenMappings`): those leave nothing in a model but
themselves and their names among the places. No option of a model that is built is hidden
(`optionsVisible_of_declarations`).
-/

namespace TestScribe

namespace Declaration

/-- The declaration is a mapping of a name that some of the declarations hide. -/
def MapsHidden (ds : List Declaration) (a : Declaration) : Prop :=
  ∃ e, a.mapping? = some e ∧ .hidden e.name ∈ ds

instance (ds : List Declaration) (a : Declaration) : Decidable (a.MapsHidden ds) :=
  match h : a.mapping? with
  | some e => decidable_of_iff (.hidden e.name ∈ ds) (by simp [MapsHidden, h])
  | none => isFalse (by simp [MapsHidden, h])

end Declaration

def withoutHiddenMappings (ds : List Declaration) : List Declaration :=
  ds.filter fun a => ¬ a.MapsHidden ds

section

variable {α : Type} {ds : List Declaration}

/-- What the mappings of hidden names add nothing to is the same without them. -/
theorem flatMap_withoutHiddenMappings {f : Declaration → List α} (h : ∀ a, a.MapsHidden ds → f a = []) :
    (withoutHiddenMappings ds).flatMap f = ds.flatMap f :=
  flatMap_filter_of_nil (fun a ha => h a (by simpa using ha)) ds

theorem filterMap_withoutHiddenMappings {f : Declaration → Option α}
    (h : ∀ a, a.MapsHidden ds → f a = none) : (withoutHiddenMappings ds).filterMap f = ds.filterMap f := by
  rw [List.filterMap_eq_flatMap_toList, List.filterMap_eq_flatMap_toList]
  exact flatMap_withoutHiddenMappings fun a ha => by rw [h a ha]; rfl

theorem declaredMappings_withoutHiddenMappings {name : String} (hname : .hidden name ∉ ds)
    (kind : MappingKind) :
    declaredMappings (withoutHiddenMappings ds) kind name = declaredMappings ds kind name := by
  rw [declaredMappings, declaredMappings, List.filter_filterMap, List.filter_filterMap]
  refine filterMap_withoutHiddenMappings fun a ha => ?_
  obtain ⟨e, he, hhidden⟩ := ha
  have hne : e.name ≠ name := fun hname' => hname (hname' ▸ hhidden)
  rw [he, Option.filter_some, if_neg (by simp [hne])]

/-- The names that a mapping of a hidden name makes places are hidden. -/
theorem Declaration.MapsHidden.of_mem_placeNames {a : Declaration} {place : String} (h : a.MapsHidden ds)
    (hplace : place ∈ a.placeNames) : .hidden place ∈ ds := by
  obtain ⟨e, he, hhidden⟩ := h
  cases a with
  | mapping kind pattern operator =>
    rw [Declaration.mapping?] at he
    rw [Declaration.placeNames] at hplace
    cases hparse : Mapping.parse kind pattern operator with
    | error e => rw [hparse] at he; cases he
    | ok e' =>
      rw [hparse] at he hplace
      cases he
      dsimp only at hplace
      split at hplace
      · cases hplace
      · exact List.mem_singleton.mp hplace ▸ hhidden
  | _ => cases he

theorem declaredPlaces_withoutHiddenMappings {q : String → Bool}
    (hq : ∀ name, .hidden name ∈ ds → q name = false) :
    (declaredPlaces (withoutHiddenMappings ds)).filter q = (declaredPlaces ds).filter q := by
  have htransitions : (withoutHiddenMappings ds).filterMap Declaration.transition? =
      ds.filterMap Declaration.transition? := by
    refine filterMap_withoutHiddenMappings fun a ha => ?_
    obtain ⟨e, he, -⟩ := ha
    cases a with
    | mapping => rfl
    | _ => cases he
  have hnames : ((withoutHiddenMappings ds).flatMap Declaration.placeNames).filter q =
      (ds.flatMap Declaration.placeNames).filter q := by
    rw [List.filter_flatMap, List.filter_flatMap]
    refine flatMap_withoutHiddenMappings fun a ha => List.filter_eq_nil_iff.mpr fun place hplace => ?_
    rw [hq place (ha.of_mem_placeNames hplace)]
    exact Bool.false_ne_true
  rw [declaredPlaces, declaredPlaces, filter_firstOccurrences, filter_firstOccurrences, List.filter_append,
    List.filter_append, hnames, htransitions]

end

namespace Draft

/-- The draft without its mappings and what they leave in it. -/
def withoutMappings (d : Draft) : Draft :=
  { d with places := [], mappings := [], refused := none }

theorem withoutMappings_apply_mapping (d : Draft) (kind : MappingKind) (pattern operator : String) :
    (d.apply (.mapping kind pattern operator)).withoutMappings = d.withoutMappings := by
  obtain ⟨_, _, _, hmapping⟩ := d.exists_apply_mapping kind pattern operator
  rw [hmapping]
  rfl

/-- A declaration adds to what is no mapping without a look at the mappings. -/
theorem withoutMappings_apply_congr {d d' : Draft} (h : d.withoutMappings = d'.withoutMappings)
    (a : Declaration) : (d.apply a).withoutMappings = (d'.apply a).withoutMappings := by
  have happly (d : Draft) : (d.apply a).withoutMappings = (d.withoutMappings.apply a).withoutMappings := by
    cases a with
    | mapping kind pattern operator =>
      rw [withoutMappings_apply_mapping, withoutMappings_apply_mapping]
      rfl
    | _ => rfl
  rw [happly d, h, ← happly d']

theorem withoutMappings_declare_filter {keep : Declaration → Bool}
    (hkeep : ∀ a, keep a = false → ∃ e, a.mapping? = some e) {d d' : Draft}
    (h : d.withoutMappings = d'.withoutMappings) (ds : List Declaration) :
    (d.declare ds).withoutMappings = (d'.declare (ds.filter keep)).withoutMappings := by
  induction ds generalizing d d' with
  | nil => exact h
  | cons a ds ih =>
    cases ha : keep a with
    | true =>
      rw [List.filter_cons_of_pos ha]
      exact ih (withoutMappings_apply_congr h a)
    | false =>
      rw [List.filter_cons_of_neg (Bool.eq_false_iff.mp ha)]
      refine ih (Eq.trans ?_ h)
      obtain ⟨e, he⟩ := hkeep a ha
      cases a with
      | mapping kind pattern operator => exact d.withoutMappings_apply_mapping kind pattern operator
      | _ => cases he

theorem withoutMappings_declare (d : Draft) (ds : List Declaration) :
    (d.declare ds).withoutMappings = (d.declare (withoutHiddenMappings ds)).withoutMappings := by
  refine withoutMappings_declare_filter (fun a ha => ?_) rfl ds
  have hmaps : a.MapsHidden ds := by simpa using ha
  exact ⟨_, hmaps.choose_spec.1⟩

end Draft

namespace Model

variable {system : String} {ds ds' : List Declaration} {m m' : Model} {name : String}

def visiblePlaces (m : Model) : List String :=
  m.places.filter fun place => !m.isHidden place

/-- The models say the same, but for the mappings of hidden names and for the hidden places. -/
structure SameButHidden (m m' : Model) : Prop where
  systemName : m.systemName = m'.systemName
  constructorEvent : m.constructorEvent = m'.constructorEvent
  hidden : m.hidden = m'.hidden
  options : m.options = m'.options
  goals : m.goals = m'.goals
  objects : m.objects = m'.objects
  parameters : m.parameters = m'.parameters
  transitions : m.transitions = m'.transitions
  visiblePlaces : m.visiblePlaces = m'.visiblePlaces
  mappingsOf : ∀ kind name, m.isHidden name = false → m.mappingsOf kind name = m'.mappingsOf kind name

theorem isHidden_iff (h : ofDeclarations system ds = .ok m) : m.isHidden name = true ↔ .hidden name ∈ ds := by
  rw [Draft.eq_toModel_of_build h, isHidden, Draft.toModel, List.contains_iff_mem, Draft.mem_hidden_declare]
  simp [Draft.empty]

theorem isOption_iff (h : ofDeclarations system ds = .ok m) : m.isOption name = true ↔ .option name ∈ ds := by
  rw [Draft.eq_toModel_of_build h, isOption, Draft.toModel, List.contains_iff_mem, Draft.mem_options_declare]
  simp [Draft.empty]

/-- No option is hidden. -/
def OptionsVisible (m : Model) : Prop :=
  ∀ name, m.isOption name = true → m.isHidden name = false

/-- A model with a hidden option is not built. -/
theorem optionsVisible_of_declarations (h : ofDeclarations system ds = .ok m) : m.OptionsVisible := by
  intro name hoption
  rw [Bool.eq_false_iff]
  intro hhidden
  exact (accepted_of_ofDeclarations h).options name ⟨(isHidden_iff h).mp hhidden, (isOption_iff h).mp hoption⟩

theorem mappingsOf_of_not_hidden (h : ofDeclarations system ds = .ok m) (hname : m.isHidden name = false)
    (kind : MappingKind) : m.mappingsOf kind name = declaredMappings (withoutHiddenMappings ds) kind name := by
  rw [mappingsOf_ofDeclarations h, declaredMappings_withoutHiddenMappings]
  exact fun hhidden => Bool.false_ne_true (hname.symm.trans ((isHidden_iff h).mpr hhidden))

theorem visiblePlaces_ofDeclarations (h : ofDeclarations system ds = .ok m) :
    m.visiblePlaces = (declaredPlaces (withoutHiddenMappings ds)).filter fun place => !m.isHidden place := by
  rw [visiblePlaces, places_ofDeclarations h, declaredPlaces_withoutHiddenMappings]
  intro place hhidden
  rw [(isHidden_iff h).mpr hhidden]
  rfl

/-- Declarations that are the same but for the mappings of hidden names make models that say the same but for
these. -/
theorem sameButHidden_of_declarations (h : ofDeclarations system ds = .ok m)
    (h' : ofDeclarations system ds' = .ok m')
    (hsame : withoutHiddenMappings ds = withoutHiddenMappings ds') : m.SameButHidden m' := by
  let d := (Draft.empty system).declare ds
  let d' := (Draft.empty system).declare ds'
  have hplain : d.withoutMappings = d'.withoutMappings := by
    rw [Draft.withoutMappings_declare, hsame, ← Draft.withoutMappings_declare]
  have hm : m = d.toModel := Draft.eq_toModel_of_build h
  have hm' : m' = d'.toModel := Draft.eq_toModel_of_build h'
  have hhidden : m.isHidden = m'.isHidden := by
    rw [hm, hm']
    exact congrArg (fun d name => d.hidden.contains name) hplain
  have hplaces : m.visiblePlaces = m'.visiblePlaces := by
    rw [visiblePlaces_ofDeclarations h, visiblePlaces_ofDeclarations h', hsame, hhidden]
  have hmappings (kind : MappingKind) (name : String) (hname : m.isHidden name = false) :
      m.mappingsOf kind name = m'.mappingsOf kind name := by
    rw [mappingsOf_of_not_hidden h hname, mappingsOf_of_not_hidden h' (hhidden ▸ hname), hsame]
  simp only [Draft.withoutMappings, Draft.mk.injEq] at hplain
  obtain ⟨hsystem, hconstructor, -, hnames, hoptions, hgoals, hobjects, hparameters, -, htransitions, -⟩ := hplain
  subst hm hm'
  exact ⟨hsystem, hconstructor, hnames, hoptions, hgoals, hobjects, hparameters, htransitions, hplaces,
    hmappings⟩

end Model

end TestScribe

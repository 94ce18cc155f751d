import TestScribe.Proofs.Model.Hidden

/-!
# The places of a model

The places of a model are the names that declarations make places, followed by those in the conditions of its
transitions, each where it comes first (`places_eq`). So the order of the declarations counts only among those that
name places and among transitions (`places_ordered`).
-/

namespace TestScribe

namespace Declaration

variable {a : Declaration} {name : String}

/-- Declarations of places and options, and the mappings of places. -/
def namesPlaces : Declaration → Bool
  | .place _ | .option _ => true
  | .mapping kind _ _ => kind ≠ .action
  | _ => false

theorem mem_placeNames_iff : name ∈ a.placeNames ↔
    a = .place name ∨ a = .option name ∨ ∃ e, a.mapping? = some e ∧ e.kind ≠ .action ∧ e.name = name := by
  cases a with
  | place x => simp [placeNames, mapping?, eq_comm]
  | option x => simp [placeNames, mapping?, eq_comm]
  | mapping kind pattern operator =>
    rw [placeNames, mapping?]
    cases hparse : Mapping.parse kind pattern operator with
    | error e => simp [Except.toOption]
    | ok e => by_cases hkind : e.kind = .action <;> simp [Except.toOption, hkind, eq_comm (a := name)]
  | _ => simp [placeNames, mapping?]

theorem placeNames_eq_nil (h : a.namesPlaces = false) : a.placeNames = [] := by
  rw [List.eq_nil_iff_forall_not_mem]
  intro name hname
  rcases mem_placeNames_iff.mp hname with rfl | rfl | ⟨e, he, hkind, -⟩
  · cases h
  · cases h
  · obtain ⟨pattern, rfl, -⟩ := mapping?_eq_some_iff.mp he
    exact hkind (by simpa [namesPlaces] using h)

theorem mem_transitions_iff {ds : List Declaration} {t : Transition} :
    t ∈ ds.filterMap transition? ↔ .transition t ∈ ds := by
  rw [List.mem_filterMap]
  constructor
  · rintro ⟨a, ha, ht⟩
    cases a with
    | transition t' => exact Option.some.inj ht ▸ ha
    | _ => cases ht
  · exact fun ht => ⟨_, ht, rfl⟩

end Declaration

namespace Model

variable {system : String} {ds : List Declaration} {m : Model}

theorem places_eq (h : ofDeclarations system ds = .ok m) :
    m.places = (ds.flatMap Declaration.placeNames ++ (ds.filterMap Declaration.transition?).flatMap fun t =>
      (t.precondition.getD [] ++ t.deletePrecondition ++ t.postcondition ++ t.effect).map
        Predicate.name).eraseDups := by
  rw [places_ofDeclarations h, declaredPlaces, firstOccurrences_eq_eraseDups, List.map_flatMap]
  rfl

theorem mem_places_iff (h : ofDeclarations system ds = .ok m) {name : String} : name ∈ m.places ↔
    .place name ∈ ds ∨ .option name ∈ ds ∨
      (∃ a ∈ ds, ∃ e, a.mapping? = some e ∧ e.kind ≠ .action ∧ e.name = name) ∨
      ∃ t, .transition t ∈ ds ∧ ∃ p ∈ t.predicates, p.name = name := by
  rw [places_ofDeclarations h, declaredPlaces, mem_firstOccurrences, List.mem_append, List.mem_map, List.mem_flatMap]
  constructor
  · rintro (⟨a, ha, hname⟩ | ⟨p, hp, rfl⟩)
    · rcases Declaration.mem_placeNames_iff.mp hname with rfl | rfl | hmapping
      · exact .inl ha
      · exact .inr (.inl ha)
      · exact .inr (.inr (.inl ⟨a, ha, hmapping⟩))
    · obtain ⟨t, ht, hp⟩ := List.mem_flatMap.mp hp
      exact .inr (.inr (.inr ⟨t, Declaration.mem_transitions_iff.mp ht, p, hp, rfl⟩))
  · rintro (hplace | hoption | ⟨a, ha, hmapping⟩ | ⟨t, ht, p, hp, rfl⟩)
    · exact .inl ⟨_, hplace, Declaration.mem_placeNames_iff.mpr (.inl rfl)⟩
    · exact .inl ⟨_, hoption, Declaration.mem_placeNames_iff.mpr (.inr (.inl rfl))⟩
    · exact .inl ⟨a, ha, Declaration.mem_placeNames_iff.mpr (.inr (.inr hmapping))⟩
    · exact .inr ⟨p, List.mem_flatMap.mpr ⟨t, Declaration.mem_transitions_iff.mpr ht, hp⟩, rfl⟩

theorem places_congr {system' : String} {ds' : List Declaration} {m' : Model}
    (h : ofDeclarations system ds = .ok m) (h' : ofDeclarations system' ds' = .ok m')
    (hplaces : ds'.filter Declaration.namesPlaces = ds.filter Declaration.namesPlaces)
    (htransitions : ds'.filterMap Declaration.transition? = ds.filterMap Declaration.transition?) :
    m'.places = m.places := by
  have hnames : ds'.flatMap Declaration.placeNames = ds.flatMap Declaration.placeNames := by
    rw [← flatMap_filter_of_nil (fun _ => Declaration.placeNames_eq_nil) ds', hplaces,
      flatMap_filter_of_nil fun _ => Declaration.placeNames_eq_nil]
  rw [places_eq h, places_eq h', hnames, htransitions]

theorem mem_transitions_of_declarations (h : ofDeclarations system ds = .ok m) {t : Transition} :
    t ∈ m.transitions ↔ .transition t ∈ ds := by
  rw [Draft.eq_toModel_of_build h, Draft.toModel, Draft.transitions_declare, ← Declaration.mem_transitions_iff]
  exact Iff.rfl

/-- A model has each of its places once, in the order in which declarations name them and then transitions mention
them: all options, all that have an accessor or a mutator, all in the conditions of a transition, and no others. Other
declarations do not count, and of those that do only the order among the ones that name places and the order among the
transitions. -/
theorem places_ordered (h : ofDeclarations system ds = .ok m) :
    m.places.Nodup ∧
      m.places = (ds.flatMap Declaration.placeNames ++ (ds.filterMap Declaration.transition?).flatMap fun t =>
        (t.precondition.getD [] ++ t.deletePrecondition ++ t.postcondition ++ t.effect).map
          Predicate.name).eraseDups ∧
      (∀ name, name ∈ m.places ↔
        .place name ∈ ds ∨ .option name ∈ ds ∨
          (∃ a ∈ ds, ∃ e, a.mapping? = some e ∧ e.kind ≠ .action ∧ e.name = name) ∨
          ∃ t, .transition t ∈ ds ∧ ∃ p ∈ t.predicates, p.name = name) ∧
      (∀ name, m.isOption name = true → name ∈ m.places) ∧
      (∀ kind name, kind ≠ .action → m.mappingsOf kind name ≠ [] → name ∈ m.places) ∧
      (∀ t ∈ m.transitions, ∀ p ∈ t.predicates, p.name ∈ m.places) ∧
      ∀ system' ds', ds'.filter Declaration.namesPlaces = ds.filter Declaration.namesPlaces →
        ds'.filterMap Declaration.transition? = ds.filterMap Declaration.transition? →
        (∀ m', ofDeclarations system' ds' = .ok m' → m'.places = m.places) ∧
        (ds'.Perm ds → ∃ m', ofDeclarations system' ds' = .ok m') := by
  refine ⟨?_, places_eq h, fun name => mem_places_iff h, fun name hoption => ?_, fun kind name hkind hmappings => ?_,
    fun t ht p hp => ?_, fun system' ds' hplaces htransitions => ⟨fun m' h' => ?_, fun hperm => ?_⟩⟩
  · rw [places_ofDeclarations h]
    exact nodup_firstOccurrences _
  · exact (mem_places_iff h).mpr (.inr (.inl ((isOption_iff h).mp hoption)))
  · obtain ⟨e, he⟩ := List.exists_mem_of_ne_nil _ hmappings
    rw [mappingsOf_ofDeclarations h, declaredMappings, List.mem_filter, decide_eq_true_iff] at he
    obtain ⟨hmem, rfl, hname⟩ := he
    obtain ⟨a, ha, he⟩ := List.mem_filterMap.mp hmem
    exact (mem_places_iff h).mpr (.inr (.inr (.inl ⟨a, ha, e, he, hkind, hname⟩)))
  · exact (mem_places_iff h).mpr
      (.inr (.inr (.inr ⟨t, (mem_transitions_of_declarations h).mp ht, p, hp, rfl⟩)))
  · exact places_congr h h' hplaces htransitions
  · exact exists_ofDeclarations system' ((accepted_of_ofDeclarations h).of_perm hperm)

/-- The transition comes first of all and its conditions still come last; the action and the hidden name leave no
place. -/
theorem places_ordered_discovered :
    let start : Transition := ⟨"start", none, some [⟨"power", []⟩], [⟨"idle", []⟩], [⟨"open", []⟩], [⟨"log", []⟩]⟩
    let ds : List Declaration := [.transition start, .place "shop", .mapping .accessor "open(X)" "isOpen(X)",
      .option "power", .mapping .action "start" "run()", .hidden "audit", .place "open"]
    let ds' : List Declaration := [.hidden "audit", .place "shop", .mapping .action "start" "run()",
      .mapping .accessor "open(X)" "isOpen(X)", .transition start, .option "power", .place "open"]
    ∃ m m', ofDeclarations "Shop" ds = .ok m ∧ ofDeclarations "Shop" ds' = .ok m' ∧
      m.places = ["shop", "open", "power", "idle", "log"] ∧ m'.places = m.places ∧
      (m.isOption "power" = true ∧ "power" ∈ m.places) ∧
      (m.mappingsOf .accessor "open" ≠ [] ∧ "open" ∈ m.places) ∧ "start" ∉ m.places ∧ "audit" ∉ m.places := by
  intro start ds ds'
  have h : ofDeclarations "Shop" ds = .ok _ := rfl
  have h' : ofDeclarations "Shop" ds' = .ok _ := rfl
  obtain ⟨-, hplaces, -, hoptions, hmapped, -, hsame⟩ := places_ordered h
  have hplaces := hplaces.trans (show _ = ["shop", "open", "power", "idle", "log"] by decide +kernel)
  refine ⟨_, _, h, h', hplaces, (hsame "Shop" ds' rfl rfl).1 _ h', ⟨rfl, hoptions "power" rfl⟩,
    ⟨by decide, hmapped .accessor "open" (by decide) (by decide)⟩, ?_, ?_⟩
  · rw [hplaces]; decide
  · rw [hplaces]; decide

end Model

end TestScribe

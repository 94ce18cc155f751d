import TestScribe.Proofs.First
import TestScribe.Proofs.Model.Declared

/-!
# Which declarations make a model

`Accepted` says of a list of declarations that its mappings can be read, that no name is hidden and an
option, and that goals and transitions have distinct names; in what order they are declared does not matter.
These make a model, and the others have an error that `Rejected` determines from the declarations
(`ofDeclarations_outcome`).
-/

namespace TestScribe

namespace Declaration

def goal? : Declaration → Option Goal
  | .goal g => some g
  | _ => none

/-- The error of a mapping that cannot be read. A pattern that does not parse is reported whatever the
operator is. -/
inductive Refused : Declaration → ModelError → Prop
  | invalidPattern {kind : MappingKind} {pattern operator : String} {cause : ParseError}
      (hpattern : Predicate.parse pattern = .error cause) :
      Refused (.mapping kind pattern operator) (.invalidPattern kind pattern cause)
  | blankOperator {kind : MappingKind} {pattern operator : String} {p : Predicate}
      (hpattern : Predicate.parse pattern = .ok p)
      (hoperator : ∀ c ∈ operator.toList, isBlank c = true) :
      Refused (.mapping kind pattern operator) (.blankOperator kind p.display)

def refusal? : Declaration → Option ModelError
  | .mapping kind pattern operator =>
    match Mapping.parse kind pattern operator with
    | .ok _ => none
    | .error e => some e
  | _ => none

variable {a : Declaration} {e e' : ModelError}

theorem Refused.unique (h : a.Refused e) (h' : a.Refused e') : e = e' := by
  cases h with
  | invalidPattern hp => cases h' with
    | invalidPattern hp' =>
      rw [hp] at hp'
      cases hp'
      rfl
    | blankOperator hp' =>
      rw [hp] at hp'
      cases hp'
  | blankOperator hp => cases h' with
    | invalidPattern hp' =>
      rw [hp] at hp'
      cases hp'
    | blankOperator hp' =>
      rw [hp] at hp'
      cases hp'
      rfl

theorem refused_of_refusal? (h : a.refusal? = some e) : a.Refused e := by
  cases a with
  | mapping kind pattern operator =>
    rw [refusal?, Mapping.parse] at h
    cases hpattern : Predicate.parse pattern with
    | error cause =>
      simp only [hpattern, Option.some.injEq] at h
      exact h ▸ .invalidPattern hpattern
    | ok p =>
      by_cases hblank : isBlankText operator = true
      · simp only [hpattern, if_pos hblank, Option.some.injEq] at h
        exact h ▸ .blankOperator hpattern (List.all_eq_true.mp hblank)
      · simp [hpattern, hblank] at h
  | _ => cases h

theorem Refused.refusal?_eq (h : a.Refused e) : a.refusal? = some e := by
  cases h with
  | invalidPattern hpattern => simp only [refusal?, Mapping.parse, hpattern]
  | @blankOperator kind pattern operator p hpattern hoperator =>
    have hblank : isBlankText operator = true := List.all_eq_true.mpr hoperator
    simp only [refusal?, Mapping.parse, hpattern, if_pos hblank]

theorem isSome_refusal?_iff : a.refusal?.isSome = true ↔ ∃ e, a.Refused e :=
  Option.isSome_iff_exists.trans
    ⟨fun ⟨e, h⟩ => ⟨e, refused_of_refusal? h⟩, fun ⟨e, h⟩ => ⟨e, h.refusal?_eq⟩⟩

/-- A mapping is refused unless its pattern parses and its operator has a character that is not blank. -/
theorem not_refused_mapping_iff {kind : MappingKind} {pattern operator : String} :
    (¬ ∃ e, Refused (.mapping kind pattern operator) e) ↔
      (∃ p, Predicate.parse pattern = .ok p) ∧ ∃ c ∈ operator.toList, isBlank c = false := by
  constructor
  · intro h
    cases hpattern : Predicate.parse pattern with
    | error cause => exact absurd ⟨_, .invalidPattern hpattern⟩ h
    | ok p =>
      refine ⟨⟨p, rfl⟩, Decidable.byContradiction fun hnone => h ⟨_, .blankOperator hpattern fun c hc => ?_⟩⟩
      rcases Bool.eq_false_or_eq_true (isBlank c) with htrue | hfalse
      · exact htrue
      · exact absurd ⟨c, hc, hfalse⟩ hnone
  · rintro ⟨⟨p, hp⟩, c, hc, hblank⟩ ⟨e, he⟩
    cases he with
    | invalidPattern hpattern =>
      rw [hp] at hpattern
      cases hpattern
    | blankOperator _ hoperator =>
      rw [hoperator c hc] at hblank
      cases hblank

end Declaration

/-- The error of the first mapping that cannot be read. -/
def FirstRefused (ds : List Declaration) (e : ModelError) : Prop :=
  ∃ a, IsFirst (fun a => ∃ e, a.Refused e) ds a ∧ a.Refused e

def goalNames (ds : List Declaration) : List String :=
  (ds.filterMap Declaration.goal?).map Goal.name

def transitionNames (ds : List Declaration) : List String :=
  (ds.filterMap Declaration.transition?).map Transition.name

def AllMappingsRead (ds : List Declaration) : Prop :=
  ∀ kind pattern operator, .mapping kind pattern operator ∈ ds →
    (∃ p, Predicate.parse pattern = .ok p) ∧ ∃ c ∈ operator.toList, isBlank c = false

def NoHiddenOption (ds : List Declaration) : Prop :=
  ∀ name, ¬ (.hidden name ∈ ds ∧ .option name ∈ ds)

structure Accepted (ds : List Declaration) : Prop where
  mappings : AllMappingsRead ds
  options : NoHiddenOption ds
  goals : (goalNames ds).Nodup
  transitions : (transitionNames ds).Nodup

/-- The errors that a list of declarations can have; each is looked for when there is none of those before
it. Which hidden option is reported of several is left open. -/
inductive Rejected (ds : List Declaration) : ModelError → Prop
  | mapping {e : ModelError} (hfirst : FirstRefused ds e) : Rejected ds e
  | hiddenOption {name : String} (hmappings : AllMappingsRead ds) (hhidden : .hidden name ∈ ds)
      (hoption : .option name ∈ ds) : Rejected ds (.hiddenOption name)
  | duplicateGoal {name : String} (hmappings : AllMappingsRead ds) (hoptions : NoHiddenOption ds)
      (hrepeat : FirstRepeat (goalNames ds) name) : Rejected ds (.duplicateGoal name)
  | duplicateTransition {name : String} (hmappings : AllMappingsRead ds) (hoptions : NoHiddenOption ds)
      (hgoals : (goalNames ds).Nodup) (hrepeat : FirstRepeat (transitionNames ds) name) :
      Rejected ds (.duplicateTransition name)

/-- The verdict on declarations that agrees with what they make. -/
def Judged (ds : List Declaration) : Except ModelError Model → Prop
  | .ok _ => Accepted ds
  | .error e => Rejected ds e

variable {ds : List Declaration} {e : ModelError}

theorem FirstRefused.findSome?_eq (h : FirstRefused ds e) :
    ds.findSome? Declaration.refusal? = some e := by
  obtain ⟨a, hfirst, ha⟩ := h
  cases hfind : ds.findSome? Declaration.refusal? with
  | none =>
    have hnone := List.findSome?_eq_none_iff.mp hfind a hfirst.mem
    rw [ha.refusal?_eq] at hnone
    cases hnone
  | some e' =>
    obtain ⟨b, hb, hrefusal⟩ := IsFirst.of_findSome? (fun _ => Declaration.isSome_refusal?_iff) hfind
    obtain rfl := hb.unique hfirst
    rw [(Declaration.refused_of_refusal? hrefusal).unique ha]

theorem firstRefused_of_findSome? (h : ds.findSome? Declaration.refusal? = some e) :
    FirstRefused ds e := by
  obtain ⟨a, hfirst, ha⟩ := IsFirst.of_findSome? (fun _ => Declaration.isSome_refusal?_iff) h
  exact ⟨a, hfirst, Declaration.refused_of_refusal? ha⟩

theorem allMappingsRead_iff : AllMappingsRead ds ↔ ∀ a ∈ ds, ¬ ∃ e, a.Refused e := by
  constructor
  · intro h a ha
    cases a with
    | mapping kind pattern operator =>
      exact Declaration.not_refused_mapping_iff.mpr (h kind pattern operator ha)
    | _ => rintro ⟨e, he⟩; cases he
  · intro h kind pattern operator hmem
    exact Declaration.not_refused_mapping_iff.mp (h _ hmem)

theorem findSome?_refusal?_eq_none_iff :
    ds.findSome? Declaration.refusal? = none ↔ AllMappingsRead ds := by
  rw [List.findSome?_eq_none_iff, allMappingsRead_iff]
  refine forall₂_congr fun a _ => ?_
  rw [← Declaration.isSome_refusal?_iff, Option.not_isSome_iff_eq_none]

namespace Draft

theorem refused_apply (d : Draft) (a : Declaration) :
    (d.apply a).refused = d.refused.or a.refusal? := by
  cases a with
  | mapping kind pattern operator =>
    cases hparse : Mapping.parse kind pattern operator with
    | error e => simp [apply, Declaration.refusal?, hparse, refuse]
    | ok m =>
      by_cases hkind : m.kind = .action <;>
        simp [apply, Declaration.refusal?, hparse, addMapping, addPlace, hkind]
  | _ => simp [apply, addPlace, Declaration.refusal?]

/-- The first refused mapping stays the one that is reported, whatever is declared after it. -/
theorem refused_declare (d : Draft) (ds : List Declaration) :
    (d.declare ds).refused = d.refused.or (ds.findSome? Declaration.refusal?) := by
  induction ds generalizing d with
  | nil => exact (Option.or_none).symm
  | cons a ds ih =>
    show ((d.apply a).declare ds).refused = _
    rw [ih, refused_apply, Option.or_assoc, List.findSome?_cons]
    cases a.refusal? <;> rfl

theorem goals_declare (d : Draft) (ds : List Declaration) :
    (d.declare ds).goals = d.goals ++ ds.filterMap Declaration.goal? := by
  refine collected_declare (fun d a => ?_) d ds
  cases a with
  | mapping kind pattern operator =>
    obtain ⟨_, _, _, hmapping⟩ := d.exists_apply_mapping kind pattern operator
    rw [hmapping]
    exact (List.append_nil _).symm
  | _ => simp [apply, addPlace, Declaration.goal?]

/-- A set of names that one kind of declaration adds to holds the names declared so. -/
theorem mem_declare {names : Draft → List String} {declares : String → Declaration}
    (h : ∀ d a name, name ∈ names (d.apply a) ↔ name ∈ names d ∨ declares name = a)
    (d : Draft) (ds : List Declaration) (name : String) :
    name ∈ names (d.declare ds) ↔ name ∈ names d ∨ declares name ∈ ds := by
  induction ds generalizing d with
  | nil => simp [declare]
  | cons a ds ih =>
    show name ∈ names ((d.apply a).declare ds) ↔ _
    rw [ih, h, List.mem_cons, or_assoc]

theorem mem_hidden_declare (d : Draft) (ds : List Declaration) (name : String) :
    name ∈ (d.declare ds).hidden ↔ name ∈ d.hidden ∨ .hidden name ∈ ds := by
  refine mem_declare (fun d a name => ?_) d ds name
  cases a with
  | hidden x => rw [apply, mem_addName, Declaration.hidden.injEq]
  | mapping kind pattern operator =>
    obtain ⟨_, _, _, hmapping⟩ := d.exists_apply_mapping kind pattern operator
    simp [hmapping]
  | _ => simp [apply, addPlace]

theorem mem_options_declare (d : Draft) (ds : List Declaration) (name : String) :
    name ∈ (d.declare ds).options ↔ name ∈ d.options ∨ .option name ∈ ds := by
  refine mem_declare (fun d a name => ?_) d ds name
  cases a with
  | option x => rw [apply, mem_addName, Declaration.option.injEq]
  | mapping kind pattern operator =>
    obtain ⟨_, _, _, hmapping⟩ := d.exists_apply_mapping kind pattern operator
    simp [hmapping]
  | _ => simp [apply, addPlace]

/-- The checks of `build` are the conditions of `Accepted`, one by one. -/
theorem judged_build (system : String) (ds : List Declaration) :
    Judged ds ((empty system).declare ds).build := by
  let d := (empty system).declare ds
  have hrefused : d.refused = ds.findSome? Declaration.refusal? := refused_declare (empty system) ds
  have hgoals : d.goals.map Goal.name = goalNames ds :=
    congrArg (List.map Goal.name) (goals_declare (empty system) ds)
  have htransitions : d.transitions.map Transition.name = transitionNames ds :=
    congrArg (List.map Transition.name) (transitions_declare (empty system) ds)
  have hhidden (name : String) : name ∈ d.hidden ↔ .hidden name ∈ ds := by
    simp [d, mem_hidden_declare, empty]
  have hoptions (name : String) : name ∈ d.options ↔ .option name ∈ ds := by
    simp [d, mem_options_declare, empty]
  show Judged ds d.build
  rw [build, hrefused, hgoals, htransitions]
  cases hmapping : ds.findSome? Declaration.refusal? with
  | some e => exact Rejected.mapping (firstRefused_of_findSome? hmapping)
  | none =>
  have hread := findSome?_refusal?_eq_none_iff.mp hmapping
  cases hoption : d.options.find? (fun p => d.hidden.contains p) with
  | some name =>
    have hmem := List.contains_iff_mem.mp (List.find?_some hoption)
    exact Rejected.hiddenOption hread ((hhidden name).mp hmem)
      ((hoptions name).mp (List.mem_of_find?_eq_some hoption))
  | none =>
  have hnone : NoHiddenOption ds := by
    rintro name ⟨hh, ho⟩
    exact List.find?_eq_none.mp hoption name ((hoptions name).mpr ho)
      (List.contains_iff_mem.mpr ((hhidden name).mpr hh))
  cases hgoal : firstRepeated [] (goalNames ds) with
  | some name => exact Rejected.duplicateGoal hread hnone (firstRepeat_of_firstRepeated hgoal)
  | none =>
  have hdistinct := firstRepeated_eq_none_iff.mp hgoal
  cases htransition : firstRepeated [] (transitionNames ds) with
  | some name =>
    exact Rejected.duplicateTransition hread hnone hdistinct (firstRepeat_of_firstRepeated htransition)
  | none => exact Accepted.mk hread hnone hdistinct (firstRepeated_eq_none_iff.mp htransition)

end Draft

theorem FirstRepeat.not_nodup {names : List String} {name : String} (h : FirstRepeat names name) :
    ¬ names.Nodup := by
  obtain ⟨before, after, rfl, -, hmem⟩ := h
  intro hnodup
  exact (List.nodup_append.mp hnodup).2.2 name hmem name (by simp) rfl

theorem FirstRefused.append (h : FirstRefused ds e) (more : List Declaration) :
    FirstRefused (ds ++ more) e := by
  refine firstRefused_of_findSome? ?_
  rw [List.findSome?_append, h.findSome?_eq]
  rfl

theorem Rejected.not_accepted (h : Rejected ds e) : ¬ Accepted ds := by
  intro haccepted
  cases h with
  | mapping hfirst =>
    obtain ⟨a, ha, hrefused⟩ := hfirst
    exact allMappingsRead_iff.mp haccepted.mappings a ha.mem ⟨_, hrefused⟩
  | hiddenOption _ hhidden hoption => exact haccepted.options _ ⟨hhidden, hoption⟩
  | duplicateGoal _ _ hrepeat => exact hrepeat.not_nodup haccepted.goals
  | duplicateTransition _ _ _ hrepeat => exact hrepeat.not_nodup haccepted.transitions

/-- The order of declarations does not matter. -/
theorem Accepted.of_perm {ds' : List Declaration} (h : Accepted ds) (hperm : ds'.Perm ds) : Accepted ds' where
  mappings kind pattern operator hmem := h.mappings kind pattern operator (hperm.mem_iff.mp hmem)
  options name hmem := h.options name ⟨hperm.mem_iff.mp hmem.1, hperm.mem_iff.mp hmem.2⟩
  goals := ((hperm.filterMap Declaration.goal?).map Goal.name).nodup_iff.mpr h.goals
  transitions := ((hperm.filterMap Declaration.transition?).map Transition.name).nodup_iff.mpr h.transitions

namespace Model

theorem accepted_of_ofDeclarations {system : String} {m : Model} (h : ofDeclarations system ds = .ok m) :
    Accepted ds := by
  have hjudged : Judged ds (ofDeclarations system ds) := Draft.judged_build system ds
  rw [h] at hjudged
  exact hjudged

theorem exists_ofDeclarations (system : String) (h : Accepted ds) : ∃ m, ofDeclarations system ds = .ok m := by
  have hjudged : Judged ds (ofDeclarations system ds) := Draft.judged_build system ds
  cases hbuild : ofDeclarations system ds with
  | ok m => exact ⟨m, rfl⟩
  | error e =>
    rw [hbuild] at hjudged
    exact absurd h (Rejected.not_accepted hjudged)

theorem ofDeclarations_of_firstRefused (system : String) (h : FirstRefused ds e) :
    ofDeclarations system ds = .error e := by
  have hrefused : ((Draft.empty system).declare ds).refused = some e :=
    (Draft.refused_declare (.empty system) ds).trans h.findSome?_eq
  rw [ofDeclarations, Draft.build, hrefused]

/-- Declarations make a model exactly when they are accepted, in whatever order they come; all others have
the error that is looked for first. Once a mapping is refused, its error stays the one that is reported,
whatever is declared after it. -/
theorem ofDeclarations_outcome (system : String) (ds : List Declaration) :
    ((∃ m, ofDeclarations system ds = .ok m) ↔ Accepted ds) ∧
      (∀ e, ofDeclarations system ds = .error e → Rejected ds e) ∧
      ∀ e, FirstRefused ds e → ∀ more, ofDeclarations system (ds ++ more) = .error e := by
  have hjudged : Judged ds (ofDeclarations system ds) := Draft.judged_build system ds
  refine ⟨?_, ?_, fun e h more => ofDeclarations_of_firstRefused system (h.append more)⟩
  · cases hbuild : ofDeclarations system ds with
    | ok m =>
      rw [hbuild] at hjudged
      exact ⟨fun _ => hjudged, fun _ => ⟨m, rfl⟩⟩
    | error e =>
      rw [hbuild] at hjudged
      constructor
      · rintro ⟨m, h⟩
        cases h
      · exact fun haccepted => absurd haccepted (Rejected.not_accepted hjudged)
  · intro e he
    rw [he] at hjudged
    exact hjudged

/-- The blank operator comes first, so it is reported, and not the pattern that does not parse, the hidden
option or the repeated goal. -/
theorem ofDeclarations_outcome_blankOperator :
    let ds : List Declaration := [.option "open", .mapping .accessor " balance( X )" " \t"]
    let more : List Declaration := [.hidden "open", .mapping .action "pay(" "", .goal ⟨"g", [], []⟩,
      .goal ⟨"g", [], []⟩]
    FirstRefused ds (.blankOperator .accessor "balance(X)") ∧
      ofDeclarations "Bank" (ds ++ more) = .error (.blankOperator .accessor "balance(X)") := by
  intro ds more
  have hfirst : FirstRefused ds (.blankOperator .accessor "balance(X)") := by
    have hpattern : Predicate.parse " balance( X )" = .ok ⟨"balance", [.var "X"]⟩ := rfl
    have hrefused : (Declaration.mapping .accessor " balance( X )" " \t").Refused
        (.blankOperator .accessor "balance(X)") := .blankOperator hpattern (List.all_eq_true.mp rfl)
    exact ⟨_, .there (fun ⟨_, h⟩ => nomatch h) (.here ⟨_, hrefused⟩), hrefused⟩
  exact ⟨hfirst, (ofDeclarations_outcome "Bank" ds).2.2 _ hfirst more⟩

end Model

end TestScribe

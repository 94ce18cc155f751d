import TestScribe.Proofs.Code.Sources
import TestScribe.Proofs.Model.Resolution

/-!
# Parameters that are matched by shape

Supplied parameters are matched with the mappings of an event that have variables. `Matched` says what they
stand for when these mappings are tried in their order, as a look-up tries them. An action tries only the
first, so it is the matched one if the first fits or none does, and else it is made without the mapping that
fits (`bareAction_supplied`, `bareAction_second_shape`).
-/

namespace TestScribe

namespace Mapping

/-- The mapping has variables. -/
def Parametric (e : Mapping) : Prop :=
  e.isParametric = true

theorem Fits.parametric {t : Tuple} {e : Mapping} (h : e.Fits t) : e.Parametric :=
  h.1

/-- An action's values are written as they are. -/
theorem written_action {e : Mapping} {t : Tuple} {b : Bindings} {σ : String → String}
    (object? : String → Option String) (hb : e.pattern.unify t = .ok b) (hσ : e.pattern.Unifies t σ) :
    e.written .action object? σ = b.get? := by
  funext x
  rw [written, Predicate.get?_of_unify hb hσ]
  rfl

end Mapping

/-- The action that parameters stand for when all mappings `L` of the event are tried in their order. -/
inductive Matched (L : List Mapping) (object? : String → Option String) (l : Language) (event : String)
    (parameters : List String) : String → Prop
  /-- The operator of the first mapping that unifies, with the values in it. -/
  | unified {e : Mapping} {σ : String → String} {code : String}
      (he : IsFirst (Mapping.Fits parameters) L e) (hσ : e.pattern.Unifies parameters σ)
      (hcode : Substituted (e.written .action object? σ) e.operator code) :
      Matched L object? l event parameters code
  /-- If none unifies, the bare operator of the first in HTML, and elsewhere a call of it. -/
  | unfit {e : Mapping} (hnone : ∀ e ∈ L, ¬ e.Fits parameters) (he : IsFirst Mapping.Parametric L e) :
      Matched L object? l event parameters
        (if l = .html then e.operator else defaultCall e.operator parameters)
  /-- If none has variables, a call of the event. -/
  | unmapped (hnone : ∀ e ∈ L, ¬ e.Parametric) :
      Matched L object? l event parameters (defaultCall event parameters)

theorem Matched.unique {L : List Mapping} {object? : String → Option String} {l : Language}
    {event : String} {parameters : List String} {code code' : String}
    (h : Matched L object? l event parameters code)
    (h' : Matched L object? l event parameters code') : code = code' := by
  cases h with
  | unified he hσ hcode =>
    cases h' with
    | unified he' hσ' hcode' =>
      obtain rfl := he.unique he'
      rw [Mapping.written_congr .action object? hσ hσ'] at hcode
      exact hcode.unique hcode'
    | unfit hnone' => exact absurd he.holds (hnone' _ he.mem)
    | unmapped hnone' => exact absurd he.holds.parametric (hnone' _ he.mem)
  | unfit hnone he =>
    cases h' with
    | unified he' => exact absurd he'.holds (hnone _ he'.mem)
    | unfit _ he' => rw [he.unique he']
    | unmapped hnone' => exact absurd he.holds (hnone' _ he.mem)
  | unmapped hnone =>
    cases h' with
    | unified he' => exact absurd he'.holds.parametric (hnone _ he'.mem)
    | unfit _ he' => exact absurd he'.holds (hnone _ he'.mem)
    | unmapped => rfl

namespace Model

variable {m : Model} {kind : MappingKind} {name : String} {t : Tuple}

theorem isFirst_of_parametricMapping {e : Mapping} (h : m.parametricMapping kind name = some e) :
    IsFirst Mapping.Parametric (m.mappingsOf kind name) e :=
  IsFirst.of_find? (fun _ => Iff.rfl) h

theorem not_parametric_of_parametricMapping (h : m.parametricMapping kind name = none) :
    ∀ e ∈ m.mappingsOf kind name, ¬ e.Parametric :=
  List.find?_eq_none.mp h

theorem exactMapping_eq_none (h : ∀ e ∈ m.mappingsOf kind name, ¬ e.Names t) :
    m.exactMapping kind name t = none := by
  cases hexact : m.exactMapping kind name t with
  | none => rfl
  | some e =>
    have he := isFirst_of_exactMapping hexact
    exact absurd he.holds (h e he.mem)

end Model

namespace StepWriter

variable {w : StepWriter} {s : Step} {event : String} {parameters : List String}

/-- The parameters that are matched with the mappings of the step's event. -/
inductive Supplies (w : StepWriter) (s : Step) : List String → Prop
  /-- Those entered for the step. -/
  | entered (h : w.Entered s) : Supplies w s s.parameters
  /-- Those declared for the event, as objects, unless a mapping names them. -/
  | declared (h : ¬ w.Entered s) {parameters : List String} (hne : parameters ≠ [])
      (hget : w.model.parameters.get? s.event = some parameters)
      (hnames : ∀ e ∈ w.model.mappingsOf .action s.event, ¬ e.Names (parameters.map w.model.objectFor)) :
      Supplies w s (parameters.map w.model.objectFor)

theorem bareAction_of_supplies (h : w.Supplies s parameters) :
    w.bareAction s = w.actionWithParameters s.event parameters := by
  rw [bareAction_eq]
  cases h with
  | entered h =>
    rw [source_of_entered h]
    rfl
  | declared h hne hget hnames =>
    have hp := Model.specificationParameters_eq_some_iff.mpr ⟨hne, hget⟩
    rw [source_of_specification h hp, actionFrom, Model.exactMapping_eq_none hnames]

theorem actionWithParameters_of_fits {e : Mapping}
    (he : w.model.parametricMapping .action event = some e) (hfits : e.Fits parameters) :
    Matched (w.model.mappingsOf .action event) w.model.object? w.language event parameters
      (w.actionWithParameters event parameters) := by
  obtain ⟨σ, hσ⟩ := hfits.2
  obtain ⟨b, hb⟩ := Predicate.unify_ok_iff.mpr ⟨σ, hσ⟩
  have hfirst : IsFirst (Mapping.Fits parameters) (w.model.mappingsOf .action event) e :=
    (Model.isFirst_of_parametricMapping he).of_imp (fun _ h => h.parametric) hfits
  refine .unified hfirst hσ ?_
  rw [Mapping.written_action w.model.object? hb hσ, substituted_iff]
  unfold actionWithParameters
  rw [he]
  simp only [hb]

theorem actionWithParameters_of_not_fits {e : Mapping}
    (he : w.model.parametricMapping .action event = some e) (hfits : ¬ e.Fits parameters) :
    w.actionWithParameters event parameters =
      if w.language = .html then e.operator else defaultCall e.operator parameters := by
  unfold actionWithParameters
  rw [he]
  cases hu : e.pattern.unify parameters with
  | error err => simp only [hu]
  | ok b =>
    have hσ := Predicate.unify_ok_iff.mp ⟨b, hu⟩
    exact absurd ⟨(Model.isFirst_of_parametricMapping he).holds, hσ⟩ hfits

/-- Parameters are matched by shape where the first mapping with variables fits them or none does. -/
theorem matched_actionWithParameters
    (h : ∀ e, IsFirst Mapping.Parametric (w.model.mappingsOf .action event) e →
      e.Fits parameters ∨ ∀ x ∈ w.model.mappingsOf .action event, ¬ x.Fits parameters) :
    Matched (w.model.mappingsOf .action event) w.model.object? w.language event parameters
      (w.actionWithParameters event parameters) := by
  cases he : w.model.parametricMapping .action event with
  | none =>
    have hcall : w.actionWithParameters event parameters = defaultCall event parameters := by
      rw [actionWithParameters, he]
    rw [hcall]
    exact .unmapped (Model.not_parametric_of_parametricMapping he)
  | some e =>
    have hfirst := Model.isFirst_of_parametricMapping he
    rcases h e hfirst with hfits | hnone
    · exact actionWithParameters_of_fits he hfits
    · rw [actionWithParameters_of_not_fits he (hnone e hfirst.mem)]
      exact .unfit hnone hfirst

/-- Where the first mapping with variables fits the supplied parameters, or none does, the action is the one
that all mappings in their order give, and a look-up that comes to the mappings with variables agrees. Where the
first does not fit, its operator alone makes the action, whether or not a later mapping fits. -/
theorem bareAction_supplied (h : w.Supplies s parameters) :
    let L := w.model.mappingsOf .action s.event
    ((∀ e, IsFirst Mapping.Parametric L e → e.Fits parameters ∨ ∀ x ∈ L, ¬ x.Fits parameters) →
      Matched L w.model.object? w.language s.event parameters (w.bareAction s) ∧
        ∀ code, w.model.resolve .action s.event parameters = ⟨code, .parametric⟩ →
          w.bareAction s = code) ∧
    ∀ e, IsFirst Mapping.Parametric L e → ¬ e.Fits parameters →
      w.bareAction s = if w.language = .html then e.operator else defaultCall e.operator parameters := by
  intro L
  rw [bareAction_of_supplies h]
  constructor
  · intro hfirst
    have hmatched := matched_actionWithParameters hfirst
    refine ⟨hmatched, fun code hcode => ?_⟩
    have hresolves := w.model.resolves_resolve .action s.event parameters
    rw [hcode] at hresolves
    cases hresolves with
    | parametric _ he hσ hcode => exact hmatched.unique (.unified he hσ hcode)
  · intro e he hfits
    cases hp : w.model.parametricMapping .action s.event with
    | none => exact absurd he.holds (Model.not_parametric_of_parametricMapping hp e he.mem)
    | some e' =>
      obtain rfl := he.unique (Model.isFirst_of_parametricMapping hp)
      exact actionWithParameters_of_not_fits hp hfits

/-- The first mapping fits, so the entered values stand in its operator, as in a look-up. -/
theorem bareAction_supplied_pair :
    ∃ m : Model,
      Model.ofDeclarations "Shop" [.mapping .action "pay(A, B)" "payTwo(A, B)",
        .mapping .action "pay(A)" "payOne(A)"] = .ok m ∧
      let w : StepWriter := ⟨m, .default, .objectOriented, .forLanguage .java⟩
      let s : Step := { Step.firing (.named "pay") with parameters := ["x", "y"] }
      w.Supplies s ["x", "y"] ∧
        w.model.resolve .action "pay" ["x", "y"] = ⟨"payTwo(x, y)", .parametric⟩ ∧
        w.bareAction s = "payTwo(x, y)" := by
  have hm : Model.ofDeclarations "Shop" [.mapping .action "pay(A, B)" "payTwo(A, B)",
    .mapping .action "pay(A)" "payOne(A)"] = .ok _ := rfl
  refine ⟨_, hm, ?_⟩
  intro w s
  have hs : w.Supplies s ["x", "y"] := .entered ⟨rfl, by decide⟩
  have hresolve : w.model.resolve .action "pay" ["x", "y"] = ⟨"payTwo(x, y)", .parametric⟩ := by
    decide +kernel
  have hfits : Mapping.Fits ["x", "y"] ⟨.action, ⟨"pay", [.var "A", .var "B"]⟩, "payTwo(A, B)"⟩ :=
    ⟨rfl, fun v => if v = "A" then "x" else "y", by simp [Predicate.Unifies, Term.under]⟩
  refine ⟨hs, hresolve, ((bareAction_supplied hs).1 fun e he => .inl ?_).2 _ hresolve⟩
  obtain rfl := he.unique (.here hfits.parametric)
  exact hfits

/-- Here the second mapping fits and a look-up takes it, but the action is made with the first. -/
theorem bareAction_second_shape :
    ∃ m : Model,
      Model.ofDeclarations "Shop" [.mapping .action "pay(A)" "payOne(A)",
        .mapping .action "pay(A, B)" "payTwo(A, B)"] = .ok m ∧
      let w : StepWriter := ⟨m, .default, .objectOriented, .forLanguage .java⟩
      let s : Step := { Step.firing (.named "pay") with parameters := ["x", "y"] }
      w.Supplies s ["x", "y"] ∧
        w.model.resolve .action "pay" ["x", "y"] = ⟨"payTwo(x, y)", .parametric⟩ ∧
        w.bareAction s = "payOne(A)(x, y)" := by
  refine ⟨_, rfl, ?_⟩
  intro w s
  exact ⟨.entered ⟨rfl, by decide⟩, by decide +kernel, by decide +kernel⟩

end StepWriter

end TestScribe

import TestScribe.Code.Input
import TestScribe.Model.Draft

/-!
# Where the parameters of an action come from

`StepWriter.source` is the one source that the parameters of a step's action are taken from. Besides the
source, the action depends on the event, on the mappings and on the language alone (`bareAction_eq`,
`actionFrom_congr`), so a source that is not the step's cannot change it (`inputAction_priority`).
-/

namespace TestScribe

/-- The source of the parameters of an action, with the parameters it gives. -/
inductive Source
  | entered (parameters : List String)
  | declared (objects : List String)
  | fired (values : Tuple)
  | nothing

/-- The model declares parameters for the event, and not the empty list. -/
def Model.Declares (m : Model) (event : String) : Prop :=
  ∃ parameters, parameters ≠ [] ∧ m.parameters.get? event = some parameters

/-- The step has no bindings, or empty ones. -/
def Step.Unbound (s : Step) : Prop :=
  s.bindings = none ∨ s.bindings = some ∅

namespace Model

variable {m : Model} {event : String}

theorem specificationParameters_eq_some_iff {parameters : List String} :
    m.specificationParameters event = some parameters ↔
      parameters ≠ [] ∧ m.parameters.get? event = some parameters := by
  rw [specificationParameters, Option.filter_eq_some_iff, and_comm]
  simp

theorem specificationParameters_eq_none (h : ¬ m.Declares event) :
    m.specificationParameters event = none := by
  cases hp : m.specificationParameters event with
  | none => rfl
  | some parameters => exact absurd ⟨parameters, specificationParameters_eq_some_iff.mp hp⟩ h

/-- A look-up reads the mappings of its name, and the objects unless values are written as they are. -/
theorem resolve_congr {m' : Model} {kind : MappingKind} {name : String}
    (hmappings : m'.mappingsOf kind name = m.mappingsOf kind name)
    (hobjects : kind.usesObjects = true → m'.objects = m.objects) (t : Tuple) :
    m'.resolve kind name t = m.resolve kind name t := by
  have hrendered (b : Bindings) : m'.rendered kind b = m.rendered kind b := by
    unfold rendered
    split
    · next huses =>
      have hobject : m'.object? = m.object? := by
        funext value
        rw [object?, object?, hobjects huses]
      rw [hobject]
    · rfl
  unfold resolve exactMapping unifiedCode
  rw [hmappings]
  simp only [hrendered]

end Model

namespace StepWriter

variable {w w' : StepWriter} {s s' : Step}

/-- Parameters were entered for the step, and the options prefer such. -/
def Entered (w : StepWriter) (s : Step) : Prop :=
  w.options.preferGuiParameters = true ∧ s.parameters ≠ []

/-- Input actions are written as calls of the system object. -/
def Qualifies (w : StepWriter) : Prop :=
  w.dialect = .objectOriented ∧ w.options.generateReferenceForMethodCall = true

/-- The source where no parameters are given: the bindings, if there are any. -/
def firing (w : StepWriter) (s : Step) : Source :=
  match s.bindings with
  | none => .nothing
  | some b => if b.isEmpty then .nothing else .fired (w.actualParameters s b)

def source (w : StepWriter) (s : Step) : Source :=
  if w.options.preferGuiParameters && !s.parameters.isEmpty then .entered s.parameters
  else
    match w.model.specificationParameters s.event with
    | some parameters => .declared (parameters.map w.model.objectFor)
    | none => if w.options.deriveParametersFromTrace then w.firing s else .nothing

def actionFrom (w : StepWriter) (event : String) : Source → String
  | .entered parameters => w.actionWithParameters event parameters
  | .declared objects =>
    match w.model.exactMapping .action event objects with
    | some e => e.operator
    | none => w.actionWithParameters event objects
  | .fired values => (w.model.resolve .action event values).code
  | .nothing => w.actionWithoutParameters event

theorem actionFromFiring_eq (w : StepWriter) (s : Step) :
    w.actionFromFiring s = w.actionFrom s.event (w.firing s) := by
  unfold actionFromFiring firing
  cases s.bindings with
  | none => rfl
  | some b => by_cases he : b.isEmpty <;> simp only [he] <;> rfl

theorem bareAction_eq (w : StepWriter) (s : Step) :
    w.bareAction s = w.actionFrom s.event (w.source s) := by
  unfold bareAction source
  split
  · rfl
  cases w.model.specificationParameters s.event with
  | some parameters => rfl
  | none =>
    simp only
    split
    · exact actionFromFiring_eq w s
    · rfl

/-! ### Which source it is -/

theorem source_of_entered (h : w.Entered s) : w.source s = .entered s.parameters := by
  obtain ⟨hprefer, hne⟩ := h
  have hempty : s.parameters.isEmpty = false := by simpa using hne
  rw [source, hprefer, hempty]
  rfl

theorem source_of_not_entered (h : ¬ w.Entered s) :
    w.source s =
      match w.model.specificationParameters s.event with
      | some parameters => .declared (parameters.map w.model.objectFor)
      | none => if w.options.deriveParametersFromTrace then w.firing s else .nothing := by
  have hcond : ¬ (w.options.preferGuiParameters && !s.parameters.isEmpty) = true := by
    intro hc
    rw [Bool.and_eq_true, Bool.not_eq_true'] at hc
    exact h ⟨hc.1, List.isEmpty_eq_false_iff.mp hc.2⟩
  rw [source, if_neg hcond]

theorem source_of_specification (h : ¬ w.Entered s) {parameters : List String}
    (hp : w.model.specificationParameters s.event = some parameters) :
    w.source s = .declared (parameters.map w.model.objectFor) := by
  rw [source_of_not_entered h, hp]

theorem source_of_not_declares (h : ¬ w.Entered s) (hd : ¬ w.model.Declares s.event) :
    w.source s = if w.options.deriveParametersFromTrace then w.firing s else .nothing := by
  rw [source_of_not_entered h, Model.specificationParameters_eq_none hd]

theorem firing_of_unbound (h : s.Unbound) : w.firing s = .nothing := by
  unfold firing
  rcases h with hb | hb
  · rw [hb]
  · rw [hb]
    rfl

/-- The bindings count only for the formal parameters of the transition. -/
theorem firing_congr (hformal : s'.transition.formalParameters = s.transition.formalParameters)
    (hbindings : s'.bindings = s.bindings) : w.firing s' = w.firing s := by
  unfold firing actualParameters
  rw [hformal, hbindings]

/-! ### What the action depends on besides its source -/

/-- An action reads its event's mappings and the language. In particular it does not read the objects: those
stand in the source already. -/
theorem actionFrom_congr {event : String}
    (hmappings : w'.model.mappingsOf .action event = w.model.mappingsOf .action event)
    (hlanguage : w'.language = w.language) (source : Source) :
    w'.actionFrom event source = w.actionFrom event source := by
  have hexact (t : Tuple) :
      w'.model.exactMapping .action event t = w.model.exactMapping .action event t := by
    rw [Model.exactMapping, Model.exactMapping, hmappings]
  have hentered (parameters : List String) :
      w'.actionWithParameters event parameters = w.actionWithParameters event parameters := by
    unfold actionWithParameters Model.parametricMapping
    rw [hmappings, hlanguage]
  cases source with
  | entered parameters => exact hentered parameters
  | declared objects =>
    show (match w'.model.exactMapping .action event objects with
      | some e => e.operator
      | none => w'.actionWithParameters event objects) = _
    rw [hexact, hentered]
    rfl
  | fired values =>
    -- The values of an action are written as they are.
    have hresolve := Model.resolve_congr hmappings (fun huses => nomatch huses) values
    exact congrArg Resolution.code hresolve
  | nothing =>
    show w'.actionWithoutParameters event = w.actionWithoutParameters event
    unfold actionWithoutParameters
    rw [hexact, hlanguage]

theorem bareAction_congr
    (hmappings : w'.model.mappingsOf .action s.event = w.model.mappingsOf .action s.event)
    (hlanguage : w'.language = w.language) (hevent : s'.event = s.event)
    (hsource : w'.source s' = w.source s) : w'.bareAction s' = w.bareAction s := by
  rw [bareAction_eq, bareAction_eq, hevent, hsource]
  exact actionFrom_congr hmappings hlanguage (w.source s)

theorem inputAction_congr (hdialect : w'.dialect = w.dialect) (hoptions : w'.options = w.options)
    (hsystem : w'.model.systemName = w.model.systemName)
    (hbare : w'.bareAction s' = w.bareAction s) : w'.inputAction s' = w.inputAction s := by
  unfold inputAction qualify language
  rw [hdialect, hoptions, hsystem, hbare]

theorem inputAction_of_not_qualifies (h : ¬ w.Qualifies) : w.inputAction s = w.bareAction s :=
  if_neg h

/-! ### One source before the other -/

theorem inputAction_of_entered (h : w.Entered s) (hevent : s'.event = s.event)
    (hparameters : s'.parameters = s.parameters) (parameters : Dict (List String))
    (objects : Dict String) :
    StepWriter.inputAction { w with model := { w.model with parameters, objects } } s' =
      w.inputAction s := by
  refine inputAction_congr rfl rfl rfl (bareAction_congr rfl rfl hevent ?_)
  have h' : Entered { w with model := { w.model with parameters, objects } } s' :=
    ⟨h.1, by rw [hparameters]; exact h.2⟩
  rw [source_of_entered h', source_of_entered h, hparameters]

theorem inputAction_of_declares (h : ¬ w.Entered s) (h' : ¬ w.Entered s')
    (hd : w.model.Declares s.event) (hevent : s'.event = s.event) :
    w.inputAction s' = w.inputAction s := by
  refine inputAction_congr rfl rfl rfl (bareAction_congr rfl rfl hevent ?_)
  obtain ⟨parameters, hparameters⟩ := hd
  have hp := Model.specificationParameters_eq_some_iff.mpr hparameters
  rw [source_of_specification h hp, source_of_specification h' (by rw [hevent]; exact hp)]

theorem inputAction_of_not_declares (h : ¬ w.Entered s) (h' : ¬ w.Entered s')
    (hd : ¬ w.model.Declares s.event) (hevent : s'.event = s.event)
    (hfiring : w.options.deriveParametersFromTrace = true → w.firing s' = w.firing s) :
    w.inputAction s' = w.inputAction s := by
  refine inputAction_congr rfl rfl rfl (bareAction_congr rfl rfl hevent ?_)
  rw [source_of_not_declares h hd, source_of_not_declares h' (by rw [hevent]; exact hd)]
  split
  · next hderive => exact hfiring hderive
  · rfl

/-- A table that has the empty list for an event counts like one that has nothing for it. -/
theorem inputAction_of_declared_empty {declared undeclared : Dict (List String)}
    (hempty : declared.get? s.event = some []) (hnone : undeclared.get? s.event = none) :
    StepWriter.inputAction { w with model := { w.model with parameters := declared } } s =
      StepWriter.inputAction { w with model := { w.model with parameters := undeclared } } s := by
  refine inputAction_congr rfl rfl rfl (bareAction_congr rfl rfl rfl ?_)
  have hspecification :
      Model.specificationParameters { w.model with parameters := declared } s.event =
        Model.specificationParameters { w.model with parameters := undeclared } s.event := by
    unfold Model.specificationParameters
    rw [hempty, hnone]
    rfl
  unfold source
  rw [hspecification]
  rfl

/-- The sources of parameters come one before the other. Parameters that were entered, where they are preferred,
leave nothing else to count of the step but its event, and nothing of the declared parameters and the objects.
Then come the parameters declared for the event, an empty list counting as none. Only without them do the
bindings count, for the formal parameters of the transition, and without bindings it is the event alone. What
calls are qualified by counts only where they are qualified. -/
theorem inputAction_priority (w : StepWriter) (s : Step) :
    (w.Entered s → ∀ s' : Step, s'.event = s.event → s'.parameters = s.parameters →
      ∀ (parameters : Dict (List String)) (objects : Dict String),
        StepWriter.inputAction { w with model := { w.model with parameters, objects } } s' =
          w.inputAction s) ∧
    (¬ w.Entered s → w.model.Declares s.event →
      ∀ s' : Step, s'.event = s.event → ¬ w.Entered s' → w.inputAction s' = w.inputAction s) ∧
    (¬ w.Entered s → ¬ w.model.Declares s.event →
      ∀ s' : Step, s'.event = s.event → ¬ w.Entered s' →
        (s'.transition.formalParameters = s.transition.formalParameters → s'.bindings = s.bindings →
          w.inputAction s' = w.inputAction s) ∧
        (w.options.deriveParametersFromTrace = false ∨ s.Unbound ∧ s'.Unbound →
          w.inputAction s' = w.inputAction s)) ∧
    (∀ declared undeclared : Dict (List String),
      declared.get? s.event = some [] → undeclared.get? s.event = none →
        StepWriter.inputAction { w with model := { w.model with parameters := declared } } s =
          StepWriter.inputAction { w with model := { w.model with parameters := undeclared } } s) ∧
    (¬ w.Qualifies →
      ∀ (systemName : String) (createObjectReference generateReferenceForMethodCall : Bool)
        (dialect : Dialect) (margin : Margin),
        let w' : StepWriter :=
          { model := { w.model with systemName }
            options := { w.options with createObjectReference, generateReferenceForMethodCall }
            dialect, margin }
        ¬ w'.Qualifies → w'.inputAction s = w.inputAction s) := by
  refine ⟨?_, ?_, ?_, ?_, ?_⟩
  · intro h s' hevent hparameters parameters objects
    exact inputAction_of_entered h hevent hparameters parameters objects
  · intro h hd s' hevent h'
    exact inputAction_of_declares h h' hd hevent
  · intro h hd s' hevent h'
    constructor
    · intro hformal hbindings
      exact inputAction_of_not_declares h h' hd hevent fun _ => firing_congr hformal hbindings
    · intro hu
      refine inputAction_of_not_declares h h' hd hevent fun hderive => ?_
      rcases hu with hu | ⟨hs, hs'⟩
      · rw [hderive] at hu
        cases hu
      · rw [firing_of_unbound hs, firing_of_unbound hs']
  · intro declared undeclared hempty hnone
    exact inputAction_of_declared_empty hempty hnone
  · intro h systemName createObjectReference generateReferenceForMethodCall dialect margin w' h'
    rw [inputAction_of_not_qualifies h', inputAction_of_not_qualifies h]
    exact bareAction_congr rfl rfl rfl rfl

/-- Entered parameters win over declared ones and over bindings, declared ones over bindings. -/
theorem inputAction_priority_transfer :
    ∃ m : Model,
      Model.ofDeclarations "Bank" [.object "acc1" "account1", .parameters "transfer" ["acc1", "50"],
        .mapping .action "transfer(A, N)" "transfer(A, N)",
        .mapping .action "transfer(account1, 50)" "account1.transfer(50)"] = .ok m ∧
      let w : StepWriter := ⟨m, .default, .objectOriented, .forLanguage .java⟩
      let s : Step := { Step.firing (.named "transfer") with parameters := ["acc7", "5"] }
      let plain : Step := Step.firing (.named "transfer")
      (w.Entered s ∧ ∀ bindings objects, StepWriter.inputAction { w with model := { w.model with objects } }
        { s with bindings } = "Bank.transfer(acc7, 5)") ∧
      ¬ w.Entered plain ∧ w.model.Declares plain.event ∧
        ∀ bindings, w.inputAction { plain with bindings } = "Bank.account1.transfer(50)" := by
  have hm : Model.ofDeclarations "Bank" [.object "acc1" "account1", .parameters "transfer" ["acc1", "50"],
    .mapping .action "transfer(A, N)" "transfer(A, N)",
    .mapping .action "transfer(account1, 50)" "account1.transfer(50)"] = .ok _ := rfl
  refine ⟨_, hm, ?_⟩
  intro w s plain
  obtain ⟨entered, -⟩ := inputAction_priority w s
  obtain ⟨-, declared, -⟩ := inputAction_priority w plain
  have hs : w.Entered s := ⟨rfl, by decide⟩
  have hplain : ∀ bindings, ¬ w.Entered { plain with bindings } := fun _ h => h.2 rfl
  have hdeclares : w.model.Declares plain.event := ⟨["acc1", "50"], by decide, rfl⟩
  refine ⟨⟨hs, fun bindings objects => ?_⟩, hplain none, hdeclares, fun bindings => ?_⟩
  · exact (entered hs { s with bindings } rfl rfl w.model.parameters objects).trans (by decide +kernel)
  · exact (declared (hplain none) hdeclares { plain with bindings } rfl (hplain bindings)).trans
      (by decide +kernel)

end StepWriter

end TestScribe

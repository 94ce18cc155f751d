import TestScribe.Code.StepWriter

/-!
# Input code

The input code of a step sets up the option places of its precondition, runs the user's statements
and performs the input action. The parameters of the action come from the first source that has any:
those entered for the step, those the model declares for the event, the bindings that fired the
transition, and else none.
-/

namespace TestScribe

def endsStatement (code : String) : Bool :=
  endsWithChar code ')' || endsWithChar code ';' || endsWithChar code '\x7d'

namespace StepWriter

/-! ### Sources of parameters -/

/-- The first mapping of the event with variables, applied to parameters. Parameters that do not fit
it give its bare operator in HTML, and elsewhere a call of the operator. -/
def actionWithParameters (w : StepWriter) (event : String) (parameters : List String) : String :=
  match w.model.parametricMapping .action event with
  | none => defaultCall event parameters
  | some e =>
    match e.pattern.unify parameters with
    | .ok b => b.substituteText e.operator
    | .error _ => if w.language = .html then e.operator else defaultCall e.operator parameters

/-- The parameters declared for the event, as objects: a mapping that names exactly these, else as
if they had been entered. -/
def actionWithSpecification (w : StepWriter) (event : String) (parameters : List String) : String :=
  let objects := parameters.map w.model.objectFor
  match w.model.exactMapping .action event objects with
  | some e => e.operator
  | none => w.actionWithParameters event objects

/-- The mapping of the event without arguments, or else its name, called where the language needs
it. -/
def actionWithoutParameters (w : StepWriter) (event : String) : String :=
  let action :=
    match w.model.exactMapping .action event [] with
    | some e => trimmed e.operator
    | none => event
  if w.language.isObjectOriented && !endsStatement action then action ++ "()" else action

/-- The values of the transition's formal parameters, as objects; a parameter that is not bound
stands for its own name. -/
def actualParameters (w : StepWriter) (s : Step) (b : Bindings) : Tuple :=
  s.transition.formalParameters.map fun x =>
    match b.get? x with
    | some value => w.model.objectFor value
    | none => x

def actionFromFiring (w : StepWriter) (s : Step) : String :=
  match s.bindings with
  | none => w.actionWithoutParameters s.event
  | some b =>
    if b.isEmpty then w.actionWithoutParameters s.event
    else (w.model.resolve .action s.event (w.actualParameters s b)).code

/-- Qualify a call by the system object, unless it already starts with it. -/
def qualify (w : StepWriter) (code : String) : String :=
  let reference := w.language.objectReference w.model.systemName
  if startsWith code reference then code else reference ++ code

def bareAction (w : StepWriter) (s : Step) : String :=
  if w.options.preferGuiParameters && !s.parameters.isEmpty then
    w.actionWithParameters s.event s.parameters
  else
    match w.model.specificationParameters s.event with
    | some parameters => w.actionWithSpecification s.event parameters
    | none =>
      if w.options.deriveParametersFromTrace then w.actionFromFiring s
      else w.actionWithoutParameters s.event

def inputAction (w : StepWriter) (s : Step) : String :=
  if w.dialect = .objectOriented ∧ w.options.generateReferenceForMethodCall then
    w.qualify (w.bareAction s)
  else w.bareAction s

/-! ### Assembly -/

def optionSetup (w : StepWriter) (s : Step) : String :=
  let places := (s.transition.precondition.getD []).filter fun p => w.model.isOption p.name
  String.join <| places.map fun p =>
    let code := (w.model.resolve .mutator p.name ((s.bindings.getD ∅).substitute p)).code
    w.margin.line (w.dialect.setup w.language code)

def plainInput (w : StepWriter) (s : Step) : String :=
  w.optionSetup s ++ String.join (s.statements.map w.margin.line) ++
    w.dialect.action w.language w.margin (w.inputAction s)

def inputCode (w : StepWriter) (testCaseId : String) (s : Step) : String :=
  if w.isSilent s.event then ""
  else if s.negative && w.options.expectExceptionsForDirtyTests then
    w.dialect.guarded w.language w.margin testCaseId (w.plainInput s)
  else w.plainInput s

end StepWriter

end TestScribe

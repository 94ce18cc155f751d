import TestScribe.Code.GoalTag
import TestScribe.Code.StepWriter

/-!
# Oracle code

The oracle code of a step checks what the step should have done: the postconditions or the whole
marking, the deleted preconditions, the effects. A negative step is checked by its marking alone.
-/

namespace TestScribe

/-- How a condition is checked: that it holds, that it holds no more, or that it took effect. -/
inductive Check
  | holds
  | negated
  | effect
deriving DecidableEq, Repr

namespace StepWriter

/-- The code that checks a tuple of a place, without its line break. -/
def checkCode (w : StepWriter) (testCaseId place : String) (t : Tuple) (check : Check) : String :=
  let accessor := (w.model.resolve .accessor place t).code
  if w.dialect.isRaw then w.margin.indent ++ accessor
  else
    match check with
    | .holds => w.dialect.assertion w.language w.margin testCaseId accessor false
    | .negated => w.dialect.assertion w.language w.margin testCaseId accessor true
    | .effect => w.dialect.effect w.language w.margin accessor

/-- The check on a line of its own; no line where there is no code. -/
def checkLine (w : StepWriter) (testCaseId place : String) (t : Tuple) (check : Check) : String :=
  let code := w.checkCode testCaseId place t check
  if code = "" then "" else "\n" ++ code

def markingChecks (w : StepWriter) (testCaseId : String) (m : Marking) : String :=
  let places := w.model.places.filter fun place => !w.model.isHidden place
  String.join <| places.map fun place =>
    String.join ((m.tuples place).map fun t => w.checkLine testCaseId place t .holds)

/-- Check the instances of the visible predicates; a step without bindings has none. -/
def conditionChecks (w : StepWriter) (testCaseId : String) (s : Step)
    (conditions : List Predicate) (check : Check) : String :=
  match s.bindings with
  | none => ""
  | some b =>
    let visible := conditions.filter fun p => !w.model.isHidden p.name
    String.join (visible.map fun p => w.checkLine testCaseId p.name (b.substitute p) check)

def stateChecks (w : StepWriter) (testCaseId : String) (s : Step) : String :=
  if w.options.verifyPostconditions then
    w.conditionChecks testCaseId s s.transition.postcondition .holds
  else if w.options.verifyMarkings then w.markingChecks testCaseId s.marking
  else ""

def deletionChecks (w : StepWriter) (testCaseId : String) (s : Step) : String :=
  if w.dialect.isObjectOriented && w.options.verifyNegatedConditions then
    w.conditionChecks testCaseId s s.transition.deletePrecondition .negated
  else ""

def effectChecks (w : StepWriter) (testCaseId : String) (s : Step) : String :=
  if w.options.verifyEffects then w.conditionChecks testCaseId s s.transition.effect .effect
  else ""

def inlineTag (w : StepWriter) (s : Step) : String :=
  if w.options.tagsInline then goalTag (goalsHere w.model.goals s.marking) w.options w.margin
  else ""

def oracleCode (w : StepWriter) (testCaseId : String) (s : Step) : String :=
  if w.isSilent s.event then ""
  else if s.negative then
    if w.options.verifyDirtyTestState then w.markingChecks testCaseId s.marking else ""
  else
    w.stateChecks testCaseId s ++ w.deletionChecks testCaseId s ++ w.effectChecks testCaseId s ++
      w.inlineTag s

end StepWriter

end TestScribe

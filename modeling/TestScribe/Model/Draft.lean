import TestScribe.Model
import TestScribe.Predicate.Parser

/-!
# Drafting a model

A draft collects declarations (`Draft.apply`), in any order; `Draft.build` checks it and makes the
model. A mapping that is no mapping spoils the draft: `build` reports the first one.
-/

namespace TestScribe

inductive ModelError
  | invalidPattern (kind : MappingKind) (pattern : String) (cause : ParseError)
  | blankOperator (kind : MappingKind) (pattern : String)
  | duplicateGoal (name : String)
  | duplicateTransition (name : String)
  | hiddenOption (place : String)
deriving DecidableEq, Repr

def ModelError.message : ModelError → String
  | .invalidPattern kind pattern cause =>
    "Invalid " ++ kind.name ++ " pattern '" ++ pattern ++ "': " ++ cause.message
  | .blankOperator kind pattern =>
    "Blank operator for " ++ kind.name ++ " mapping '" ++ pattern ++ "'"
  | .duplicateGoal name => "Duplicate goal property: " ++ name
  | .duplicateTransition name => "Duplicate transition: " ++ name
  | .hiddenOption place => "Place '" ++ place ++ "' is both hidden and an option"

/-- Declarations so far, and the first mapping that was refused. -/
structure Draft where
  systemName : String
  constructorEvent : String
  places : List String
  hidden : List String
  options : List String
  goals : List Goal
  objects : Dict String
  parameters : Dict (List String)
  mappings : List Mapping
  transitions : List Transition
  refused : Option ModelError
deriving DecidableEq

inductive Declaration
  | constructorEvent (event : String)
  | place (name : String)
  | hidden (name : String)
  | option (place : String)
  | goal (goal : Goal)
  | object (value object : String)
  | parameters (event : String) (parameters : List String)
  | mapping (kind : MappingKind) (pattern operator : String)
  | transition (transition : Transition)
deriving DecidableEq

/-- Read a mapping: the pattern must parse and the operator must not be blank. -/
def Mapping.parse (kind : MappingKind) (pattern operator : String) : Except ModelError Mapping :=
  match Predicate.parse pattern with
  | .error cause => .error (.invalidPattern kind pattern cause)
  | .ok p =>
    if isBlankText operator then .error (.blankOperator kind p.display)
    else .ok ⟨kind, p, operator⟩

namespace Draft

def empty (systemName : String) : Draft :=
  ⟨systemName, defaultConstructorEvent, [], [], [], [], ∅, ∅, [], [], none⟩

def addPlace (d : Draft) (name : String) : Draft :=
  { d with places := addName d.places name }

/-- Add a mapping. The name of an accessor or a mutator is a place. -/
def addMapping (d : Draft) (m : Mapping) : Draft :=
  let d := if m.kind = .action then d else d.addPlace m.name
  { d with mappings := d.mappings ++ [m] }

def refuse (d : Draft) (e : ModelError) : Draft :=
  { d with refused := d.refused.or (some e) }

def apply (d : Draft) : Declaration → Draft
  | .constructorEvent event => { d with constructorEvent := event }
  | .place name => d.addPlace name
  | .hidden name => { d with hidden := addName d.hidden name }
  | .option place => { d.addPlace place with options := addName d.options place }
  | .goal goal => { d with goals := d.goals ++ [goal] }
  | .object value object => { d with objects := d.objects.insert value object }
  | .parameters event parameters =>
    { d with parameters := d.parameters.insert event parameters }
  | .mapping kind pattern operator =>
    match Mapping.parse kind pattern operator with
    | .ok m => d.addMapping m
    | .error e => d.refuse e
  | .transition transition => { d with transitions := d.transitions ++ [transition] }

def declare (d : Draft) (declarations : List Declaration) : Draft :=
  declarations.foldl apply d

/-- The declared places, then those that only transitions mention. -/
def allPlaces (d : Draft) : List String :=
  ((d.transitions.flatMap Transition.predicates).map Predicate.name).foldl addName d.places

/-- The model of what is declared, whether or not it passes the checks of `build`. -/
def toModel (d : Draft) : Model where
  systemName := d.systemName
  constructorEvent := d.constructorEvent
  places := d.allPlaces
  hidden := d.hidden
  options := d.options
  goals := d.goals
  objects := d.objects
  parameters := d.parameters
  mappings := .ofList d.mappings
  transitions := d.transitions

/-- The model of the draft. A refused mapping is reported before a name that is hidden and an
option, that before a repeated goal, and that before a repeated transition. -/
def build (d : Draft) : Except ModelError Model :=
  match d.refused with
  | some e => .error e
  | none =>
    match d.options.find? fun p => d.hidden.contains p with
    | some place => .error (.hiddenOption place)
    | none =>
      match firstRepeated [] (d.goals.map Goal.name) with
      | some name => .error (.duplicateGoal name)
      | none =>
        match firstRepeated [] (d.transitions.map Transition.name) with
        | some name => .error (.duplicateTransition name)
        | none => .ok d.toModel

end Draft

def Model.ofDeclarations (systemName : String) (declarations : List Declaration) :
    Except ModelError Model :=
  ((Draft.empty systemName).declare declarations).build

end TestScribe

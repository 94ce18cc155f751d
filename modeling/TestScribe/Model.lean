import TestScribe.Marking
import TestScribe.Transition

/-!
# The model

A model says which code stands for the events and places of a system. A mapping binds a predicate
pattern to a code template; `Model.resolve` finds the code of a name and a tuple in three tiers: the
first mapping without variables that names exactly the tuple, the first mapping with variables that
unifies with it, and a call made up from the name and the tuple.
-/

namespace TestScribe

/-- What the code of a mapping is for: an input action of an event, a reading of a place, or the
setting of an option place. -/
inductive MappingKind
  | action
  | accessor
  | mutator
deriving DecidableEq, Repr

namespace MappingKind

def name : MappingKind → String
  | .action => "action"
  | .accessor => "accessor"
  | .mutator => "mutator"

def all : List MappingKind :=
  [.action, .accessor, .mutator]

/-- The values of accessors and mutators are written as object names, those of actions are not. -/
def usesObjects : MappingKind → Bool
  | .action => false
  | .accessor | .mutator => true

end MappingKind

structure Mapping where
  kind : MappingKind
  pattern : Predicate
  operator : String
deriving DecidableEq, Repr

namespace Mapping

def name (m : Mapping) : String :=
  m.pattern.name

def isParametric (m : Mapping) : Bool :=
  m.pattern.hasVariables

end Mapping

/-- Mappings by kind and name; those of one kind and name stay in the order they were added in. -/
structure MappingTable where
  actions : Dict (List Mapping)
  accessors : Dict (List Mapping)
  mutators : Dict (List Mapping)
deriving DecidableEq

namespace MappingTable

def empty : MappingTable :=
  ⟨∅, ∅, ∅⟩

def ofKind (t : MappingTable) : MappingKind → Dict (List Mapping)
  | .action => t.actions
  | .accessor => t.accessors
  | .mutator => t.mutators

def get (t : MappingTable) (kind : MappingKind) (name : String) : List Mapping :=
  ((t.ofKind kind).get? name).getD []

def add (t : MappingTable) (m : Mapping) : MappingTable :=
  let entries := (t.ofKind m.kind).insert m.name (t.get m.kind m.name ++ [m])
  match m.kind with
  | .action => { t with actions := entries }
  | .accessor => { t with accessors := entries }
  | .mutator => { t with mutators := entries }

def ofList (mappings : List Mapping) : MappingTable :=
  mappings.foldl add empty

theorem get_empty (kind : MappingKind) (name : String) : empty.get kind name = [] := by
  cases kind <;> rfl

theorem get_add (t : MappingTable) (m : Mapping) (kind : MappingKind) (name : String) :
    (t.add m).get kind name =
      if m.kind = kind ∧ m.name = name then t.get kind name ++ [m] else t.get kind name := by
  by_cases hk : m.kind = kind
  · subst hk
    by_cases hn : m.name = name
    · subst hn
      cases hm : m.kind <;> simp [get, add, ofKind, hm]
    · cases hm : m.kind <;> simp [get, add, ofKind, hm, hn]
  · cases hm : m.kind <;> cases kind <;> simp_all [get, add, ofKind]

theorem get_foldl_add (kind : MappingKind) (name : String) (l : List Mapping) (t : MappingTable) :
    (l.foldl add t).get kind name =
      t.get kind name ++ l.filter fun m => m.kind = kind ∧ m.name = name := by
  induction l generalizing t with
  | nil => simp
  | cons m rest ih =>
    rw [List.foldl_cons, ih, get_add]
    split <;> simp [*]

/-- The table keeps, of each kind and name, the mappings of the list in their order. -/
theorem get_ofList (l : List Mapping) (kind : MappingKind) (name : String) :
    (ofList l).get kind name = l.filter fun m => m.kind = kind ∧ m.name = name := by
  rw [ofList, get_foldl_add, get_empty, List.nil_append]

end MappingTable

inductive Tier
  | exact
  | parametric
  | synthesized
deriving DecidableEq, Repr

structure Resolution where
  code : String
  tier : Tier
deriving DecidableEq, Repr

def defaultCall (name : String) (args : List String) : String :=
  name ++ "(" ++ argumentText args ++ ")"

/-- The event that sets up the system, unless a model names another. -/
def defaultConstructorEvent : String := "new"

/-- The goal that is never tagged inside a test. -/
def defaultGoal : String := "default"

structure Model where
  systemName : String
  constructorEvent : String
  places : List String
  hidden : List String
  options : List String
  goals : List Goal
  objects : Dict String
  parameters : Dict (List String)
  mappings : MappingTable
  transitions : List Transition
deriving DecidableEq

def sameIgnoringCase (a b : String) : Bool :=
  a.toList.map Char.toLower == b.toList.map Char.toLower

namespace Model

/-- The constructor event is recognised in any case. -/
def isConstructor (m : Model) (event : String) : Bool :=
  sameIgnoringCase event m.constructorEvent

def isHidden (m : Model) (name : String) : Bool :=
  m.hidden.contains name

def isOption (m : Model) (place : String) : Bool :=
  m.options.contains place

def object? (m : Model) (value : String) : Option String :=
  m.objects.get? value

def objectFor (m : Model) (value : String) : String :=
  (m.object? value).getD value

/-- The parameters declared for an event; an empty list counts as none. -/
def specificationParameters (m : Model) (event : String) : Option (List String) :=
  (m.parameters.get? event).filter fun params => !params.isEmpty

def transition? (m : Model) (name : String) : Option Transition :=
  m.transitions.find? fun t => t.name == name

/-- The mappings of a kind whose pattern has the name, in the order they were declared. -/
def mappingsOf (m : Model) (kind : MappingKind) (name : String) : List Mapping :=
  m.mappings.get kind name

/-- The first mapping without variables that names exactly the tuple. -/
def exactMapping (m : Model) (kind : MappingKind) (name : String) (t : Tuple) : Option Mapping :=
  (m.mappingsOf kind name).find? fun e => !e.isParametric && e.pattern.matchesExactly t

def parametricMapping (m : Model) (kind : MappingKind) (name : String) : Option Mapping :=
  (m.mappingsOf kind name).find? Mapping.isParametric

def rendered (m : Model) (kind : MappingKind) (b : Bindings) : Bindings :=
  if kind.usesObjects then b.withObjects m.object? else b

def unifiedCode (m : Model) (kind : MappingKind) (name : String) (t : Tuple) : Option String :=
  ((m.mappingsOf kind name).filter Mapping.isParametric).findSome? fun e =>
    match e.pattern.unify t with
    | .ok b => some ((m.rendered kind b).substituteText e.operator)
    | .error _ => none

/-- The code of a name and a tuple, with the tier it came from. -/
def resolve (m : Model) (kind : MappingKind) (name : String) (t : Tuple) : Resolution :=
  match m.exactMapping kind name t with
  | some e => ⟨e.operator, .exact⟩
  | none =>
    match (if t.isEmpty then none else m.unifiedCode kind name t) with
    | some code => ⟨code, .parametric⟩
    | none => ⟨defaultCall name t, .synthesized⟩

end Model

end TestScribe

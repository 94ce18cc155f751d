import TestScribe.Predicate

/-!
# Transitions

A transition is a model event with its condition lists. Without declared parameters, its formal
parameters are the variables of its precondition, postcondition and effect.
-/

namespace TestScribe

structure Transition where
  name : String
  parameters : Option (List String)
  precondition : Option (List Predicate)
  deletePrecondition : List Predicate
  postcondition : List Predicate
  effect : List Predicate
deriving DecidableEq, Repr

namespace Transition

/-- A transition with an empty precondition. -/
def named (name : String) : Transition :=
  ⟨name, none, some [], [], [], []⟩

/-- The transition that sets up the system: it has no precondition at all. -/
def constructor (name : String) : Transition :=
  ⟨name, none, none, [], [], []⟩

/-- The distinct variables of precondition, postcondition and effect, by first occurrence. -/
def allVariables (t : Transition) : List String :=
  let predicates := t.precondition.getD [] ++ t.postcondition ++ t.effect
  firstOccurrences (predicates.flatMap Predicate.variableNames)

def formalParameters (t : Transition) : List String :=
  t.parameters.getD t.allVariables

def predicates (t : Transition) : List Predicate :=
  t.precondition.getD [] ++ t.deletePrecondition ++ t.postcondition ++ t.effect

end Transition

end TestScribe

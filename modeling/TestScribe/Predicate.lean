import TestScribe.Names
import TestScribe.Term

/-!
# Predicates

A predicate is a pattern over a place or an event: a name applied to terms, as in
`balance(A, 100)`.
-/

namespace TestScribe

structure Predicate where
  name : String
  args : List Term
deriving DecidableEq, Repr

namespace Predicate

def ofTexts (name : String) (args : List String) : Predicate :=
  ⟨name, args.map Term.parse⟩

def arity (p : Predicate) : Nat :=
  p.args.length

def hasVariables (p : Predicate) : Bool :=
  p.args.any Term.isVariable

def variableNames (p : Predicate) : List String :=
  firstOccurrences (p.args.filterMap Term.variableName?)

/-- The written form: the bare name without arguments, else `name(a1, ..., an)`. -/
def display (p : Predicate) : String :=
  if p.args.isEmpty then p.name
  else p.name ++ "(" ++ argumentText (p.args.map Term.text) ++ ")"

/-- True when the pattern has no variables and its constants are the tuple. -/
def matchesExactly (p : Predicate) (t : Tuple) : Bool :=
  p.arity == t.length && (p.args.zip t).all fun (term, value) => term == .const value

end Predicate

end TestScribe

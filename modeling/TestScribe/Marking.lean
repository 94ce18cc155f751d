import TestScribe.Bindings

/-!
# Markings and goals

A marking holds the tuples present in each place, in order and with repetitions. `findBinding`
searches for bindings that turn every condition into a present tuple and no negated predicate into
one; a goal is a named pair of such lists.
-/

namespace TestScribe

abbrev Marking := Dict (List Tuple)

structure Goal where
  name : String
  condition : List Predicate
  negated : List Predicate
deriving DecidableEq, Repr

namespace Marking

def tuples (m : Marking) (place : String) : List Tuple :=
  (m.get? place).getD []

def add (m : Marking) (place : String) (t : Tuple) : Marking :=
  m.insert place (m.tuples place ++ [t])

def hasTuples (m : Marking) (place : String) : Bool :=
  !(m.tuples place).isEmpty

def holds (m : Marking) (place : String) (t : Tuple) : Bool :=
  (m.tuples place).contains t

def places (m : Marking) : List String :=
  (m.entries.filter fun e => !e.2.isEmpty).map (·.1)

def total (m : Marking) : Nat :=
  (m.entries.flatMap fun e => e.2).length

/-- True when the bindings turn some negated predicate into a present tuple. -/
def blocked (m : Marking) (negated : List Predicate) (b : Bindings) : Bool :=
  negated.any fun p => m.holds p.name (b.substitute p)

/-- Extend bindings to satisfy the conditions in turn, trying the tuples of a place in order. -/
def search (m : Marking) (negated : List Predicate) : List Predicate → Bindings → Option Bindings
  | [], b => if m.blocked negated b then none else some b
  | p :: rest, b =>
    (m.tuples p.name).findSome? fun t =>
      match p.unifyWith t b with
      | .ok extended => search m negated rest extended
      | .error _ => none

/-- The first bindings, in search order, that satisfy the conditions and are not blocked. -/
def findBinding (m : Marking) (condition negated : List Predicate) : Option Bindings :=
  m.search negated condition ∅

def satisfies (m : Marking) (g : Goal) : Bool :=
  (m.findBinding g.condition g.negated).isSome

end Marking

end TestScribe

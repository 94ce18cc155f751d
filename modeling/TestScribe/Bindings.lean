import TestScribe.Dict
import TestScribe.Predicate

/-!
# Bindings of variables

Bindings map variables to values. They instantiate predicates (`substitute`) and the identifiers of
code templates (`substituteText`), and unification extends them (`Predicate.unifyWith`).
-/

namespace TestScribe

abbrev Bindings := Dict String

namespace Bindings

/-- The value of a term; a variable that is not bound stands for its own name. -/
def value (b : Bindings) : Term → String
  | .var name => (b.get? name).getD name
  | .const value => value

def substitute (b : Bindings) (p : Predicate) : Tuple :=
  p.args.map b.value

def tokenText (b : Bindings) (token : List Char) : List Char :=
  match b.get? (String.ofList token) with
  | some value => value.toList
  | none => token

/-- Replace the bound identifiers of a template by their values, in one pass. -/
def substituteText (b : Bindings) (template : String) : String :=
  if b.isEmpty then template
  else String.ofList (Text.mapTokens b.tokenText template.toList)

/-- Replace each value that has an object name by that name. -/
def withObjects (b : Bindings) (object? : String → Option String) : Bindings :=
  b.mapValues fun v => (object? v).getD v

end Bindings

inductive UnifyError
  | arityMismatch (expected actual : Nat)
  | constantMismatch (position : Nat) (expected actual : String)
  | inconsistentBinding (name first second : String)
deriving DecidableEq, Repr

def UnifyError.message : UnifyError → String
  | .arityMismatch expected actual =>
    "arity mismatch: pattern has " ++ toString expected ++ " arguments, tuple has " ++
      toString actual
  | .constantMismatch position expected actual =>
    "constant '" ++ expected ++ "' does not match '" ++ actual ++ "' at position " ++
      toString position
  | .inconsistentBinding name first second =>
    "variable '" ++ name ++ "' bound to both '" ++ first ++ "' and '" ++ second ++ "'"

namespace Predicate

/-- Match terms with values from left to right, the first of them at `position`. -/
def unifyArgs (position : Nat) (b : Bindings) :
    List Term → List String → Except UnifyError Bindings
  | .const c :: terms, v :: values =>
    if c = v then unifyArgs (position + 1) b terms values
    else .error (.constantMismatch position c v)
  | .var x :: terms, v :: values =>
    match b.get? x with
    | some bound =>
      if bound = v then unifyArgs (position + 1) b terms values
      else .error (.inconsistentBinding x bound v)
    | none => unifyArgs (position + 1) (b.insert x v) terms values
  | _, _ => .ok b

def unifyWith (p : Predicate) (t : Tuple) (b : Bindings) : Except UnifyError Bindings :=
  if p.arity = t.length then unifyArgs 0 b p.args t
  else .error (.arityMismatch p.arity t.length)

def unify (p : Predicate) (t : Tuple) : Except UnifyError Bindings :=
  p.unifyWith t ∅

end Predicate

end TestScribe

import TestScribe.Predicate

/-!
# Reading predicates

`Predicate.parse` reads `name`, `name()` and `name(a1, ..., an)`. Inside an argument list,
parentheses nest and double quotes hide everything up to the next one; the list ends at the first
parenthesis that closes more than was opened, and its arguments are cut at the commas outside of
quotes and nested parentheses.
-/

namespace TestScribe

/-- Why a text is no predicate; each constructor carries the whole text. -/
inductive ParseError
  | missingName (text : String)
  | unclosedArguments (text : String)
  | trailingInput (text trailing : String)
  | emptyArgument (text : String) (position : Nat)
deriving DecidableEq, Repr

def ParseError.message : ParseError → String
  | .missingName text => "predicate '" ++ text ++ "' has no name"
  | .unclosedArguments text => "unclosed argument list in '" ++ text ++ "'"
  | .trailingInput text trailing =>
    "unexpected trailing input '" ++ trailing ++ "' in '" ++ text ++ "'"
  | .emptyArgument text position =>
    "empty argument at position " ++ toString position ++ " in '" ++ text ++ "'"

/-- Where a scan of an argument list stands: the open parentheses, and whether it is in quotes. -/
structure Nesting where
  depth : Nat
  quoted : Bool
deriving DecidableEq, Repr

namespace Nesting

def outside : Nesting :=
  ⟨0, false⟩

def isOutside (n : Nesting) : Bool :=
  n.depth == 0 && !n.quoted

def step (n : Nesting) (c : Char) : Nesting :=
  if c = '"' then { n with quoted := !n.quoted }
  else if n.quoted then n
  else if c = '(' then { n with depth := n.depth + 1 }
  else if c = ')' then { n with depth := n.depth - 1 }
  else n

/-- Cut a text at the parenthesis that closes its argument list: what precedes and what follows. -/
def cutAtClose (n : Nesting) : List Char → Option (List Char × List Char)
  | [] => none
  | c :: cs =>
    if c = ')' ∧ n.isOutside then some ([], cs)
    else (cutAtClose (n.step c) cs).map fun (inner, after) => (c :: inner, after)

/-- The pieces between the commas outside of quotes and parentheses; never empty. -/
def pieces (n : Nesting) : List Char → List (List Char)
  | [] => [[]]
  | c :: cs =>
    if c = ',' ∧ n.isOutside then [] :: pieces n cs
    else
      match pieces (n.step c) cs with
      | [] => [[c]]
      | p :: ps => (c :: p) :: ps

end Nesting

namespace Predicate

def readArguments (text : String) (position : Nat) :
    List (List Char) → Except ParseError (List Term)
  | [] => .ok []
  | p :: ps =>
    if Text.blank p then .error (.emptyArgument text position)
    else
      match readArguments text (position + 1) ps with
      | .ok terms => .ok (Term.parse (String.ofList p) :: terms)
      | .error e => .error e

def readList (text : String) (rest : List Char) : Except ParseError (List Term) :=
  match Nesting.outside.cutAtClose rest with
  | none => .error (.unclosedArguments text)
  | some (inner, after) =>
    if Text.blank after then
      if Text.blank inner then .ok [] else readArguments text 0 (Nesting.outside.pieces inner)
    else .error (.trailingInput text (String.ofList (Text.trim after)))

def parse (text : String) : Except ParseError Predicate :=
  let body := Text.trim text.toList
  let head := body.takeWhile (· ≠ '(')
  let name := String.ofList (Text.trim head)
  if name = "" then .error (.missingName text)
  else
    match body.dropWhile (· ≠ '(') with
    | [] => .ok ⟨name, []⟩
    | _ :: rest =>
      match readList text rest with
      | .ok terms => .ok ⟨name, terms⟩
      | .error e => .error e

end Predicate

end TestScribe

import TestScribe.Text.Blank
import TestScribe.Text.Token

/-!
# Terms and tuples

A term is one argument of a predicate pattern: a variable to be bound, or a constant that stands for
itself. A tuple is a list of concrete arguments.
-/

namespace TestScribe

inductive Term
  | var (name : String)
  | const (value : String)
deriving DecidableEq, Repr

/-- A variable name is an identifier that starts with a capital letter or an underscore. -/
def isVariableName (text : String) : Bool :=
  match text.toList with
  | [] => false
  | c :: cs => (c.isUpper || c == '_') && cs.all Text.isTokenTail

namespace Term

/-- Read an argument: a variable if its trimmed text is a variable name, else a constant. -/
def parse (text : String) : Term :=
  let t := trimmed text
  if isVariableName t then .var t else .const t

def isVariable : Term → Bool
  | .var _ => true
  | .const _ => false

def variableName? : Term → Option String
  | .var name => some name
  | .const _ => none

def text : Term → String
  | .var name => name
  | .const value => value

end Term

abbrev Tuple := List String

def argumentText (args : List String) : String :=
  ", ".intercalate args

def Tuple.display (t : Tuple) : String :=
  "(" ++ argumentText t ++ ")"

end TestScribe

import TestScribe.Margin
import TestScribe.Tree

/-!
# Dialects

A dialect is the shape of the code for a family of languages: how an action becomes a statement, how a
condition becomes an assertion, and how a step that must fail is guarded. `Dialect.select` chooses it.
-/

namespace TestScribe

inductive Dialect
  | html
  | c
  /-- Unit tests that call the system through an object. -/
  | objectOriented
  /-- Unit tests that call the system's methods directly. -/
  | objectOrientedSystem
  | keywordDriven
  | recordPlayback
deriving DecidableEq, Repr

namespace Dialect

/-- The dialect of a language. Trees of threats get no object references. -/
def select (l : Language) (createObjectReference : Bool) (kind : TreeKind) : Dialect :=
  match l with
  | .java | .cSharp | .cpp | .python | .vb =>
    if kind = .threatNet ∨ createObjectReference = false then .objectOrientedSystem
    else .objectOriented
  | .c => .c
  | .kbt | .rpc | .seleniumDriver => .keywordDriven
  | .uft => .recordPlayback
  | .html => .html

def isObjectOriented : Dialect → Bool
  | .objectOriented | .objectOrientedSystem => true
  | .html | .c | .keywordDriven | .recordPlayback => false

/-- In a raw dialect, conditions and effects stay the bare code of their accessors. -/
def isRaw : Dialect → Bool
  | .html => true
  | .c | .objectOriented | .objectOrientedSystem | .keywordDriven | .recordPlayback => false

def statement (d : Dialect) (l : Language) (code : String) : String :=
  match d with
  | .c | .objectOriented | .objectOrientedSystem => l.terminate code
  | .html | .keywordDriven | .recordPlayback => code

def action (d : Dialect) (l : Language) (m : Margin) (code : String) : String :=
  m.line (d.statement l code)

/-- The statement that fails a test unless its step threw. -/
def expectedException (testId : String) : String :=
  "(\"Test " ++ testId ++ ": exception expected\")"

/-- Guard code of an object-oriented test so that an exception passes it. -/
def catching (l : Language) (m : Margin) (testId code : String) : String :=
  let body := m.indentBlock code
  let inner := m.indented
  match l with
  | .python => m.line "with self.assertRaises(Exception):" ++ body
  | .cpp => m.line "EXPECT_ANY_THROW(\x7b" ++ body ++ m.line "\x7d);"
  | .cSharp =>
    m.line "try \x7b" ++ body ++ inner.line ("Assert.Fail" ++ expectedException testId ++ ";") ++
      m.line "\x7d catch (Exception) \x7b \x7d"
  | .vb =>
    m.line "Try" ++ body ++ inner.line ("Assert.Fail" ++ expectedException testId) ++
      m.line "Catch ex As Exception" ++ m.line "End Try"
  | .java | .c | .html | .kbt | .rpc | .seleniumDriver | .uft =>
    m.line "try \x7b" ++ body ++ inner.line ("fail" ++ expectedException testId ++ ";") ++
      m.line "\x7d catch (Exception e) \x7b \x7d"

/-- Guard the input code of a step that is expected to fail. -/
def guarded (d : Dialect) (l : Language) (m : Margin) (testId code : String) : String :=
  if d.isObjectOriented then catching l m testId code else code

def objectAssertion (l : Language) (testId condition : String) (negated : Bool) : String :=
  let quotedId := "\"" ++ testId ++ "\""
  let last := "(" ++ condition ++ ", " ++ quotedId ++ ")"
  let verdict := if negated then "False" else "True"
  match l with
  | .cSharp => "Assert.Is" ++ verdict ++ last ++ ";"
  | .cpp => (if negated then "ASSERT_FALSE(" else "ASSERT_TRUE(") ++ condition ++ ");"
  | .python => "self.assert" ++ verdict ++ last
  | .vb => "Assert.Is" ++ verdict ++ last
  | .java | .c | .html | .kbt | .rpc | .seleniumDriver | .uft =>
    "assert" ++ verdict ++ "(" ++ quotedId ++ ", " ++ condition ++ ");"

/-- A line of a test log that passes if the condition does. -/
def checkpoint (testId condition : String) (negated : Bool) : String :=
  let check := if negated then "Not (" ++ condition ++ ")" else condition
  "Reporter.ReportEvent IIf(" ++ check ++ ", micPass, micFail), \"" ++ testId ++ "\", \"" ++
    replaceChar '"' "\"\"" condition ++ "\""

def assertion (d : Dialect) (l : Language) (m : Margin) (testId condition : String)
    (negated : Bool) : String :=
  m.indent ++
    match d with
    | .html | .keywordDriven => condition
    | .c => if negated then "assert(!(" ++ condition ++ "));" else "assert(" ++ condition ++ ");"
    | .objectOriented | .objectOrientedSystem => objectAssertion l testId condition negated
    | .recordPlayback => checkpoint testId condition negated

/-- The code that checks an effect, without its line break; empty where effects are not checked. -/
def effect (d : Dialect) (l : Language) (m : Margin) (code : String) : String :=
  if d.isObjectOriented then m.indent ++ l.terminate code else ""

def setup (d : Dialect) (l : Language) (code : String) : String :=
  d.statement l code

end Dialect

end TestScribe

import TestScribe.Language

/-!
# Margins

A margin says how far lines of code are indented, and by how much a nested block is indented more.
-/

namespace TestScribe

structure Margin where
  indent : String
  unit : String
deriving DecidableEq, Repr

namespace Margin

def forLanguage (l : Language) : Margin :=
  ⟨l.bodyIndentation, l.indentUnit⟩

def newline (m : Margin) : String :=
  "\n" ++ m.indent

def line (m : Margin) (code : String) : String :=
  m.newline ++ code

def indented (m : Margin) : Margin :=
  { m with indent := m.indent ++ m.unit }

/-- Indent every line of written code by one more level. -/
def indentBlock (m : Margin) (code : String) : String :=
  replaceChar '\n' ("\n" ++ m.unit) code

def reindent (m : Margin) (text : String) : String :=
  replaceChar '\n' m.newline text

end Margin

end TestScribe

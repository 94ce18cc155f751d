import TestScribe.Text.Occurrence

/-!
# Target languages

The languages that tests are written in, with the tables of their surface forms.
-/

namespace TestScribe

inductive Language
  | java
  | cSharp
  | cpp
  | python
  | vb
  | c
  | html
  | kbt
  | rpc
  | seleniumDriver
  | uft
deriving DecidableEq, Repr

namespace Language

def all : List Language :=
  [.java, .cSharp, .cpp, .python, .vb, .c, .html, .kbt, .rpc, .seleniumDriver, .uft]

def name : Language → String
  | .java => "java"
  | .cSharp => "csharp"
  | .cpp => "cpp"
  | .python => "python"
  | .vb => "vb"
  | .c => "c"
  | .html => "html"
  | .kbt => "kbt"
  | .rpc => "rpc"
  | .seleniumDriver => "selenium_driver"
  | .uft => "uft"

def isObjectOriented : Language → Bool
  | .java | .cSharp | .cpp | .python | .vb => true
  | .c | .html | .kbt | .rpc | .seleniumDriver | .uft => false

def bodyIndentation : Language → String
  | .java | .cSharp | .vb => "\t\t"
  | .python => "        "
  | .cpp | .c => "\t"
  | .html | .kbt | .rpc | .seleniumDriver | .uft => ""

def indentUnit : Language → String
  | .python => "    "
  | .java | .cSharp | .cpp | .vb | .c | .html | .kbt | .rpc | .seleniumDriver | .uft => "\t"

def objectReference (l : Language) (systemName : String) : String :=
  match l with
  | .cpp => systemName ++ "->"
  | .python => "self." ++ systemName ++ "."
  | .java | .cSharp | .vb | .c | .html | .kbt | .rpc | .seleniumDriver | .uft => systemName ++ "."

/-- The mark that ends a statement; empty where line ends do. -/
def terminator : Language → String
  | .java | .cSharp | .cpp | .c => ";"
  | .python | .vb | .html | .kbt | .rpc | .seleniumDriver | .uft => ""

def commentMark : Language → String
  | .python | .kbt | .rpc => "#"
  | .vb | .uft => "'"
  | .html => "<!--"
  | .java | .cSharp | .cpp | .c | .seleniumDriver => "//"

def fileExtension : Language → String
  | .java => "java"
  | .cSharp => "cs"
  | .cpp => "cpp"
  | .python => "py"
  | .vb => "vb"
  | .c => "c"
  | .html => "html"
  | .kbt | .rpc => "txt"
  | .seleniumDriver => "side"
  | .uft => "vbs"

/-- End a statement, unless the code already ends a statement or a block. -/
def terminate (l : Language) (code : String) : String :=
  if l.terminator = "" ∨ l.terminator.toList.isSuffixOf code.toList ∨ endsWithChar code '\x7d'
  then code
  else code ++ l.terminator

/-- The lower-case name with underscores that a spelling stands for. -/
def plainName (text : String) : String :=
  let plain := replaceChar '-' "_" (String.ofList (text.toList.map Char.toLower))
  if plain = "c#" ∨ plain = "cs" then "csharp"
  else if plain = "c++" then "cpp"
  else if plain = "selenium" then "selenium_driver"
  else plain

/-- The language of a name, in any ASCII case, with dashes for underscores, or by a nickname. -/
def parse (text : String) : Option Language :=
  all.find? fun l => l.name == plainName text

end Language

def unknownLanguageMessage (text : String) : String :=
  "unknown target language '" ++ text ++ "'"

end TestScribe

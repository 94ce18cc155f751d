import TestScribe.Json

/-!
# Printing JSON

`Json.render` writes a value on one line: control characters and the separators of lines and
paragraphs are escaped.
-/

namespace TestScribe.Json

def hexChar (n : Nat) : Char :=
  Nat.digitChar (n % 16)

def unitEscape (n : Nat) : List Char :=
  ['\\', 'u', hexChar (n / 4096), hexChar (n / 256), hexChar (n / 16), hexChar n]

/-- Characters that are written as escapes of their number. -/
def needsEscape (c : Char) : Bool :=
  c.toNat < 0x20 || (0x7F ≤ c.toNat && c.toNat < 0xA0) || c.toNat == 0x2028 || c.toNat == 0x2029

def charText (c : Char) : List Char :=
  if c = '"' ∨ c = '\\' then ['\\', c]
  else if needsEscape c then unitEscape c.toNat
  else [c]

def quoted (s : String) : String :=
  String.ofList ('"' :: s.toList.flatMap charText ++ ['"'])

mutual

/-- The text of a value. An unreadable value is written as half of a surrogate pair. -/
def render : Json → String
  | .null => "null"
  | .bool true => "true"
  | .bool false => "false"
  | .num text => text
  | .str s => quoted s
  | .arr items => "[" ++ ",".intercalate (renderItems items) ++ "]"
  | .obj fields => "\x7b" ++ ",".intercalate (renderFields fields) ++ "\x7d"
  | .unreadable => "\"\\ud800\""

def renderItems : List Json → List String
  | [] => []
  | v :: rest => render v :: renderItems rest

def renderFields : List (String × Json) → List String
  | [] => []
  | (k, v) :: rest => (quoted k ++ ":" ++ render v) :: renderFields rest

end

end TestScribe.Json

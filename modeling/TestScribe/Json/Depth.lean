import TestScribe.Json.Reader

/-!
# Depth

The arrays and objects of a document are read to a depth of `Json.maxDepth`. What is nested deeper
must be well formed, but it can only be skipped.
-/

namespace TestScribe.Json

/-- How deep the arrays and objects of a document may nest where they are read. -/
def maxDepth : Nat :=
  127

mutual

/-- Keep `depth` levels of arrays and objects; deeper ones become unreadable. -/
def limitDepth : Nat → Json → Json
  | 0, .arr _ => .unreadable
  | 0, .obj _ => .unreadable
  | depth + 1, .arr items => .arr (limitItems depth items)
  | depth + 1, .obj fields => .obj (limitFields depth fields)
  | _, v => v

def limitItems : Nat → List Json → List Json
  | _, [] => []
  | depth, v :: rest => limitDepth depth v :: limitItems depth rest

def limitFields : Nat → List (String × Json) → List (String × Json)
  | _, [] => []
  | depth, (k, v) :: rest => (k, limitDepth depth v) :: limitFields depth rest

end

def parseDocument (text : String) : Option Json :=
  (parse text).map (limitDepth maxDepth)

end TestScribe.Json

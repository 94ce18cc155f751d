/-!
# Blank characters

`isBlank` holds of the characters with the Unicode property `White_Space`; `trim` removes them from
both ends of a text.
-/

namespace TestScribe

/-- The characters with the Unicode property `White_Space`. -/
def isBlank (c : Char) : Bool :=
  let n := c.toNat
  (9 ≤ n && n ≤ 13) || n == 0x20 || n == 0x85 || n == 0xA0 || n == 0x1680 ||
    (0x2000 ≤ n && n ≤ 0x200A) || n == 0x2028 || n == 0x2029 || n == 0x202F || n == 0x205F ||
    n == 0x3000

namespace Text

def trim (cs : List Char) : List Char :=
  ((cs.dropWhile isBlank).reverse.dropWhile isBlank).reverse

def blank (cs : List Char) : Bool :=
  cs.all isBlank

end Text

def trimmed (s : String) : String :=
  String.ofList (Text.trim s.toList)

def isBlankText (s : String) : Bool :=
  Text.blank s.toList

end TestScribe

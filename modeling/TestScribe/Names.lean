/-!
# Lists of names

Names are collected without repetitions, in the order in which they first occur.
-/

namespace TestScribe

def addName (names : List String) (name : String) : List String :=
  if name ∈ names then names else names ++ [name]

/-- Keep the first occurrence of each name. -/
def firstOccurrences (names : List String) : List String :=
  names.foldl addName []

/-- The first name that repeats an earlier one, or one of `seen`. -/
def firstRepeated (seen : List String) : List String → Option String
  | [] => none
  | x :: xs => if x ∈ seen then some x else firstRepeated (x :: seen) xs

end TestScribe

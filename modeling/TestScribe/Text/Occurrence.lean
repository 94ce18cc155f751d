/-!
# Occurrences in a text

Finding a character or a text in another one, cutting there (`splitText`), and putting something else
in its place (`replaceChar`, `replaceText`). Replacement goes from left to right, and what was put in
is not looked at again.
-/

namespace TestScribe

namespace Text

/-- Replace each occurrence of the non-empty text `pat`; the next search starts after it. -/
def replaceAll (pat rep : List Char) : List Char → List Char
  | [] => []
  | c :: cs =>
    if pat.isPrefixOf (c :: cs) then rep ++ replaceAll pat rep (cs.drop (pat.length - 1))
    else c :: replaceAll pat rep cs
termination_by cs => cs.length
decreasing_by
  · simp only [List.length_drop, List.length_cons]; omega
  · simp

def occurs (pat : List Char) : List Char → Bool
  | [] => pat.isEmpty
  | c :: cs => pat.isPrefixOf (c :: cs) || occurs pat cs

/-- The pieces of a text between the occurrences of `c`; never empty. -/
def splitAt (c : Char) : List Char → List (List Char)
  | [] => [[]]
  | x :: xs =>
    if x = c then [] :: splitAt c xs
    else
      match splitAt c xs with
      | [] => [[x]]
      | p :: ps => (x :: p) :: ps

end Text

def replaceChar (c : Char) (rep : String) (s : String) : String :=
  String.ofList (s.toList.flatMap fun x => if x = c then rep.toList else [x])

def replaceText (pat rep : String) (s : String) : String :=
  String.ofList (Text.replaceAll pat.toList rep.toList s.toList)

def containsText (pat : String) (s : String) : Bool :=
  Text.occurs pat.toList s.toList

def startsWith (s start : String) : Bool :=
  start.toList.isPrefixOf s.toList

def endsWithChar (s : String) (c : Char) : Bool :=
  s.toList.getLast? == some c

/-- The texts between the occurrences of `c`; a text without `c` is its only piece. -/
def splitText (c : Char) (s : String) : List String :=
  (Text.splitAt c s.toList).map String.ofList

end TestScribe

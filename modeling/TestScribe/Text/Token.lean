/-!
# Identifier tokens in a text

An identifier is a letter or underscore followed by letters, digits and underscores, all of them
ASCII. `mapTokens` replaces each longest identifier of a text, from left to right and in one pass,
and keeps every other character.
-/

namespace TestScribe.Text

def isTokenHead (c : Char) : Bool :=
  c.isAlpha || c == '_'

def isTokenTail (c : Char) : Bool :=
  c.isAlphanum || c == '_'

/-- Replace each identifier of the text by what `f` makes of it. A digit does not start an identifier,
but an identifier may follow one. -/
def mapTokens (f : List Char → List Char) : List Char → List Char
  | [] => []
  | c :: cs =>
    if isTokenHead c then
      f (c :: cs.takeWhile isTokenTail) ++ mapTokens f (cs.dropWhile isTokenTail)
    else
      c :: mapTokens f cs
termination_by cs => cs.length
decreasing_by
  · have := (List.dropWhile_sublist isTokenTail (l := cs)).length_le
    simp only [List.length_cons]; omega
  · simp

end TestScribe.Text

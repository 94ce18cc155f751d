import TestScribe.Path

/-!
# Storage

What a program that writes suites asks of the place that files are kept in.
-/

namespace TestScribe

/-- How the writing of a file ended: the text is in it, it could not be created, or the text could
not be written into it. -/
inductive WriteResult
  | written
  | notCreated
  | notWritten
deriving DecidableEq, Repr

class Storage (m : Type → Type) where
  readText : Path → m (Option String)
  /-- Make a directory and those above it; true if they all exist afterwards. -/
  makeDirectories : Path → m Bool
  /-- Create a file, or empty the one that exists, and write a text into it. -/
  writeFile : Path → String → m WriteResult
  remove : Path → m Unit

end TestScribe

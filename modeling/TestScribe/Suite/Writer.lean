import TestScribe.Run
import TestScribe.Storage

/-!
# Writing suites

`Suite.write` puts the files of a suite into a directory, all or none: when a file fails, it and those
written before it are removed. What is written next to a destination has its name from there (`suiteName`)
and goes into its directory (`suiteDirectory`).
-/

namespace TestScribe

def defaultSuiteName : String := "TestSuite"

section

variable {m : Type → Type} [Monad m] [Storage m]

def discard : List Path → m Unit
  | [] => pure ()
  | p :: rest => do
    Storage.remove p
    discard rest

namespace Suite

/-- Write files into a directory, after some that are written already. -/
def writeFiles (directory : Path) (written : List Path) :
    List SuiteFile → m (Except RunError (List Path))
  | [] => pure (.ok written)
  | f :: rest => do
    let path := directory.join f.name
    match ← Storage.writeFile path f.contents with
    | .written => writeFiles directory (written ++ [path]) rest
    | .notCreated =>
      discard written
      return .error (.destinationUnavailable path)
    | .notWritten =>
      discard [path]
      discard written
      return .error (.notWritten path)

/-- Write a suite into a directory, which is made if needed: the paths of its files. -/
def write (s : Suite) (directory : Path) : m (Except RunError (List Path)) := do
  if ← Storage.makeDirectories directory then writeFiles directory [] s.files
  else return .error (.destinationUnavailable directory)

end Suite

end

/-- The suite name of a destination: the stem of its file name. -/
def suiteName (destination : Path) : String :=
  destination.fileStem.getD defaultSuiteName

def suiteDirectory (destination : Path) : Path :=
  match destination.parent with
  | none | some "" => "."
  | some p => p

end TestScribe

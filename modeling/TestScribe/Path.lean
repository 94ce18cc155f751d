import TestScribe.Text.Occurrence

/-!
# Paths

A path is text, read as names between slashes. Doubled and trailing slashes and the name `.` count for
nothing, except for a leading `.`.
-/

namespace TestScribe

abbrev Path := String

namespace Path

/-- A path that a system takes: no zero byte, and fewer than 4096 bytes. -/
def isValid (p : Path) : Bool :=
  !p.toList.contains '\x00' && p.utf8ByteSize < 4096

/-- A name between slashes that counts for nothing. -/
def isVoid (name : String) : Bool :=
  name == "" || name == "."

def dropVoid (names : List String) : List String :=
  (names.reverse.dropWhile isVoid).reverse

def isAbsolute (p : Path) : Bool :=
  startsWith p "/"

/-- The first name of a path, and the others without trailing ones that count for nothing. The first
name of an absolute path is empty. -/
def names (p : Path) : String × List String :=
  match splitText '/' p with
  | [] => ("", [])
  | first :: rest => (first, dropVoid rest)

/-- The name a path ends in; `.` and `..` are no names of files. -/
def fileName (p : Path) : Option String :=
  let (first, rest) := p.names
  match rest.getLast? with
  | some ".." => none
  | some name => some name
  | none => if isVoid first || first == ".." then none else some first

/-- The name a path ends in, up to its last dot; a dot that starts the name does not count. -/
def fileStem (p : Path) : Option String :=
  p.fileName.map fun name =>
    match (splitText '.' name).dropLast with
    | [] | [""] => name
    | parts => ".".intercalate parts

/-- The path without its last name; the empty path and the root have no parent. -/
def parent (p : Path) : Option Path :=
  let (first, rest) := p.names
  if rest.isEmpty then if first = "" then none else some ""
  else
    match dropVoid rest.dropLast with
    | [] => some (if first = "" then "/" else first)
    | dirs => some ("/".intercalate (first :: dirs))

/-- A path below a directory; an absolute path stays as it is. -/
def join (directory p : Path) : Path :=
  if p.isAbsolute then p
  else if directory = "" ∨ endsWithChar directory '/' then directory ++ p
  else directory ++ "/" ++ p

end Path

end TestScribe

import TestScribe.Storage

/-!
# Disks

A disk is storage held in memory: a tree of directories, files, and links to a device that takes no
byte. Entries are found by their location; a path is resolved to one from the root if it is absolute
and from the working directory otherwise. Where a text has no room, a file can be created but takes
only the start of it (`Room`).
-/

namespace TestScribe

inductive Entry
  | directory
  | file (text : String)
  /-- A link to a device that can be opened but is always full. -/
  | full
deriving DecidableEq, Repr

/-- Where an entry is: its names from the root down, each after a slash. The root has none. -/
abbrev Location := String

namespace Location

def root : Location :=
  ""

def child (here : Location) (name : String) : Location :=
  here ++ "/" ++ name

def above (l : Location) : Location :=
  "/".intercalate (splitText '/' l).dropLast

end Location

/-- Which texts have no room where, and what such a file holds when its writing has failed. -/
structure Room where
  /-- What a file at a location takes of a text that it does not take as a whole. -/
  cut : Location → String → Option String
  /-- It is the start of the text, and not all of it. -/
  cut_start : ∀ l text taken, cut l text = some taken → taken.toList <+: text.toList ∧ taken ≠ text

/-- Every text has room everywhere. -/
def Room.ample : Room where
  cut _ _ := none
  cut_start _ _ _ h := nomatch h

/-- How much room a disk has is no part of its contents: no operation changes it. -/
structure Disk (room : Room := .ample) where
  workingDirectory : Location
  entries : List (Location × Entry)
deriving DecidableEq, Repr

namespace Disk

variable {room : Room}

def find (l : Location) : List (Location × Entry) → Option Entry
  | [] => none
  | (k, e) :: rest => if k = l then some e else find l rest

/-- The entry at a location; the root is always a directory. -/
def entry? (d : Disk room) (l : Location) : Option Entry :=
  if l = .root then some .directory else find l d.entries

def erase (d : Disk room) (l : Location) : Disk room :=
  { d with entries := d.entries.filter fun e => e.1 != l }

def put (d : Disk room) (l : Location) (e : Entry) : Disk room :=
  { d with entries := (l, e) :: (d.erase l).entries }

/-- A name that a directory can hold: at most 255 bytes. -/
def isName (name : String) : Bool :=
  name.utf8ByteSize ≤ 255

def start (d : Disk room) (p : Path) : Location :=
  if p.isAbsolute then .root else d.workingDirectory

/-- Follow names down from a directory; each must lead to a directory. -/
def follow (d : Disk room) (here : Location) : List String → Option Location
  | [] => some here
  | name :: rest =>
    if Path.isVoid name then d.follow here rest
    else if name = ".." then d.follow here.above rest
    else if d.entry? (here.child name) = some .directory then d.follow (here.child name) rest
    else none

/-- The location that names lead to from a directory, in a directory that exists. The last name must
be one that a directory can hold. -/
def locateIn (d : Disk room) (here : Location) (names : List String) : Option Location :=
  match names.getLast? with
  | none => none
  | some name =>
    if Path.isVoid name || name == ".." || !isName name then none
    else (d.follow here names.dropLast).map fun here => here.child name

def locate (d : Disk room) (p : Path) : Option Location :=
  if p.isValid then d.locateIn (d.start p) (splitText '/' p) else none

def readText (d : Disk room) (p : Path) : Option String :=
  match (d.locate p).bind d.entry? with
  | some (.file text) => some text
  | _ => none

/-- True when a missing directory can be made under a name that the names of `rest` follow in a path:
not when the path ends there in `.`, under which no directory can be made. -/
def endsInName (rest : List String) : Bool :=
  !(rest.all Path.isVoid && rest.contains ".")

/-- Follow names down from a directory and make the directories that are missing, up to the first
that cannot be made; true if the names lead to a directory afterwards. -/
def makeAlong (d : Disk room) (here : Location) : List String → Bool × Disk room
  | [] => (true, d)
  | name :: rest =>
    if Path.isVoid name then d.makeAlong here rest
    else if name = ".." then d.makeAlong here.above rest
    else
      match d.entry? (here.child name) with
      | some .directory => d.makeAlong (here.child name) rest
      | some _ => (false, d)
      | none =>
        if isName name && endsInName rest then
          (d.put (here.child name) .directory).makeAlong (here.child name) rest
        else (false, d)

/-- Make a directory and those above it. A path that is not valid is refused before any is made. -/
def makeDirectories (d : Disk room) (p : Path) : Bool × Disk room :=
  if p.isValid then d.makeAlong (d.start p) (splitText '/' p) else (false, d)

/-- A file that exists is emptied first, so nothing of it is left where the text has no room. -/
def writeFile (d : Disk room) (p : Path) (text : String) : WriteResult × Disk room :=
  match d.locate p with
  | none => (.notCreated, d)
  | some l =>
    match d.entry? l with
    | some .directory => (.notCreated, d)
    | some .full => (if text = "" then .written else .notWritten, d)
    | some (.file _) | none =>
      match room.cut l text with
      | none => (.written, d.put l (.file text))
      | some taken => (.notWritten, d.put l (.file taken))

def remove (d : Disk room) (p : Path) : Disk room :=
  match d.locate p with
  | none => d
  | some l => if d.entry? l = some .directory then d else d.erase l

/-- The entries below the working directory, by their paths from there. -/
def listing (d : Disk room) : List (Path × Entry) :=
  let above := d.workingDirectory.child ""
  d.entries.filterMap fun (l, e) =>
    if startsWith l above then some (String.ofList (l.toList.drop above.length), e) else none

end Disk

instance {room : Room} : Storage (StateM (Disk room)) where
  readText p := do return (← get).readText p
  makeDirectories p := modifyGet fun d => d.makeDirectories p
  writeFile p text := modifyGet fun d => d.writeFile p text
  remove p := modify fun d => d.remove p

end TestScribe

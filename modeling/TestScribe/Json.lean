import TestScribe.Dict

/-!
# JSON values

The values of JSON documents, with the accessors that the documents of this library are decoded by. A
record is read field by field: fields it does not know are ignored. In place of an object it may be
the list of its fields' values.
-/

namespace TestScribe

inductive Json
  | null
  | bool (b : Bool)
  | num (text : String)
  | str (s : String)
  | arr (items : List Json)
  | obj (fields : List (String × Json))
  /-- A value that can be skipped but not read: its text is no Unicode text, or it is nested too
  deep. -/
  | unreadable
deriving Repr

namespace Json

variable {α : Type}

def toBool? : Json → Option Bool
  | .bool b => some b
  | _ => none

def toText? : Json → Option String
  | .str s => some s
  | _ => none

def toNat? : Json → Option Nat
  | .num text => text.toNat?
  | _ => none

def toList? (read : Json → Option α) : Json → Option (List α)
  | .arr items => items.mapM read
  | _ => none

def toDict? (read : Json → Option α) : Json → Option (Dict α)
  | .obj fields => (fields.mapM fun e => (read e.2).map fun a => (e.1, a)).map Dict.ofList
  | _ => none

/-- A value that may be missing; `null` stands for none. -/
def orNull? (read : Json → Option α) : Json → Option (Option α)
  | .null => some none
  | v => (read v).map some

/-- One of a few names: a string, or an object with the name as its only key, and null for its
value. -/
def choice? : Json → Option String
  | .str s => some s
  | .obj [(s, .null)] => some s
  | _ => none

def fields? : Json → Option (List (String × Json))
  | .obj fields => some fields
  | _ => none

/-- The fields of a record that is known by `names`. An object must not repeat a field of these
names; an array gives the values of the fields in the order of `names`, as many as it has. -/
def record? (names : List String) : Json → Option (List (String × Json))
  | .obj fields =>
    if names.all fun name => fields.countP (fun e => e.1 == name) ≤ 1 then some fields else none
  | .arr items => if items.length ≤ names.length then some (names.zip items) else none
  | _ => none

def required (fields : List (String × Json)) (name : String) (read : Json → Option α) : Option α :=
  (Dict.find name fields).bind read

def optional (fields : List (String × Json)) (name : String) (read : Json → Option α)
    (default : α) : Option α :=
  match Dict.find name fields with
  | none => some default
  | some v => read v

def ofTexts (l : List String) : Json :=
  .arr (l.map .str)

def ofDict (write : α → Json) (d : Dict α) : Json :=
  .obj (d.entries.map fun e => (e.1, write e.2))

def ofOption (write : α → Json) : Option α → Json
  | none => .null
  | some a => write a

end Json

end TestScribe

import Keybox.Text

/-!
# File trees

A file system as a table from places to entries. A place is the list of names on the way from the
root; the root itself is always there and is a directory. A file has a serial number that stays
with it when its place changes, so that a file which is open can be told from a later one at the
same place.

Whoever works on the tree owns all of it, and is held to the owner's part of a file's mode.
-/

namespace Keybox

/-- The name of an entry in its directory, as reading the directory gives it. -/
abbrev Name := Text

/-- The names on the way from the root to an entry. -/
abbrev Place := List Name

/-- What a place holds. -/
inductive Entry where
  | dir (mode : Nat)
  | file (serial mode : Nat) (content : Bytes)
  | link (target : Text)
deriving DecidableEq

/-- Whether a mode lets the owner read. -/
def ownerReads (mode : Nat) : Bool :=
  mode.testBit 8

/-- Whether a mode lets the owner write. -/
def ownerWrites (mode : Nat) : Bool :=
  mode.testBit 7

/-- Entries by place, the place relative paths start from, and the serial number of the next new
file. -/
structure FileTree where
  entries : List (Place × Entry)
  workingDir : Place
  nextSerial : Nat
deriving DecidableEq

namespace FileTree

/-- The mode of a directory that nothing else is said about. -/
def plainDirMode : Nat :=
  0o755

/-- The mode of a file that nothing else is said about. -/
def plainFileMode : Nat :=
  0o644

/-- The first entry at a place in a table. -/
def lookup (place : Place) : List (Place × Entry) → Option Entry
  | [] => none
  | (p, e) :: rest => if p = place then some e else lookup place rest

/-- The table with an entry at a place: instead of the one that is there, else last. -/
def store (place : Place) (entry : Entry) : List (Place × Entry) → List (Place × Entry)
  | [] => [(place, entry)]
  | (p, e) :: rest =>
    if p = place then (place, entry) :: rest else (p, e) :: store place entry rest

/-- The entry at a place. -/
def get? (t : FileTree) (place : Place) : Option Entry :=
  if place = [] then some (.dir plainDirMode) else lookup place t.entries

/-- The tree with an entry at a place. -/
def set (t : FileTree) (place : Place) (entry : Entry) : FileTree :=
  { t with entries := store place entry t.entries }

/-- The tree without the entry at a place. -/
def erase (t : FileTree) (place : Place) : FileTree :=
  { t with entries := t.entries.filter fun e => e.1 != place }

/-- The tree with a new empty file at a place. -/
def addFile (t : FileTree) (place : Place) (mode : Nat) : FileTree :=
  { t.set place (.file t.nextSerial mode []) with nextSerial := t.nextSerial + 1 }

/-- An entry changed, if it is the file with a serial number. -/
def Entry.onSerial (serial : Nat) (f : Nat → Bytes → Entry) : Entry → Entry
  | .file s m content => if s = serial then f m content else .file s m content
  | e => e

/-- The tree with more content at the end of an open file; without effect if the file is gone. -/
def append (t : FileTree) (serial : Nat) (content : Bytes) : FileTree :=
  { t with entries := t.entries.map fun e =>
      (e.1, Entry.onSerial serial (fun m old => .file serial m (old ++ content)) e.2) }

/-- The tree with another mode for an open file. -/
def changeMode (t : FileTree) (serial mode : Nat) : FileTree :=
  { t with entries := t.entries.map fun e =>
      (e.1, Entry.onSerial serial (fun _ content => .file serial mode content) e.2) }

/-- The tree with a directory as working directory and nothing else but the way to it. -/
def fresh (workingDir : Place) : FileTree where
  entries := (List.range workingDir.length).map fun n =>
    (workingDir.take (n + 1), .dir plainDirMode)
  workingDir := workingDir
  nextSerial := 0

end FileTree

end Keybox

import Keybox.FileTree.Walk

/-!
# File operations

Reading, opening for writing, making directories and links, removing and renaming. Each operation
takes a path, or the place of a file it made itself, and fails with an error of the file system;
one that fails leaves the tree as it is.
-/

namespace Keybox

namespace FileTree

/-- The content of the file at a path. -/
def contentAt (t : FileTree) (path : Text) : Except Errno Bytes := do
  match ← t.resolve .reading path with
  | .entry _ (.file _ mode content) =>
    if ownerReads mode then .ok content else .error .noPermission
  | .entry _ _ => .error .isDirectory
  | .vacant _ _ => .error .noEntry

/-- Whether a path leads to an entry. -/
def isThere (t : FileTree) (path : Text) : Bool :=
  match t.resolve .reading path with
  | .ok (.entry _ _) => true
  | _ => false

/-- Whether a path leads to a directory. -/
def isDirectory (t : FileTree) (path : Text) : Bool :=
  match t.resolve .reading path with
  | .ok (.entry _ (.dir _)) => true
  | _ => false

/-- Opens the file at a path for writing at its end, a new one of the given mode if there is
none. -/
def openAppend (t : FileTree) (path : Text) (mode : Nat) : Except Errno (Nat × FileTree) := do
  match ← t.resolve .creating path with
  | .entry _ (.file serial old _) =>
    if ownerWrites old then .ok (serial, t) else .error .noPermission
  | .entry _ _ => .error .isDirectory
  | .vacant directory name => .ok (t.nextSerial, t.addFile (directory ++ [name]) mode)

/-- Opens the file at a path for writing from its beginning, a new one of the given mode if there
is none. -/
def openEmpty (t : FileTree) (path : Text) (mode : Nat) : Except Errno (Nat × FileTree) := do
  match ← t.resolve .creating path with
  | .entry place (.file serial old _) =>
    if ownerWrites old then .ok (serial, t.set place (.file serial old []))
    else .error .noPermission
  | .entry _ _ => .error .isDirectory
  | .vacant directory name => .ok (t.nextSerial, t.addFile (directory ++ [name]) mode)

/-- Makes an entry at a path where there is none. A slash at its end is for directories only. -/
def makeEntry (t : FileTree) (path : Text) (entry : Entry) : Except Errno FileTree := do
  match ← t.parentOf path with
  | (_, .special) => .error .alreadyThere
  | (directory, .name name trailing) =>
    if FileName.length name > nameLimit then .error .nameTooLong
    else
      match t.get? (directory ++ [name]), entry with
      | some _, _ => .error .alreadyThere
      | none, .dir _ => .ok (t.set (directory ++ [name]) entry)
      | none, _ => if trailing then .error .noEntry else .ok (t.set (directory ++ [name]) entry)

/-- Makes a directory. -/
def makeDirectory (t : FileTree) (path : Text) (mode : Nat) : Except Errno FileTree :=
  t.makeEntry path (.dir mode)

/-- Makes a link. -/
def makeLink (t : FileTree) (target path : Text) : Except Errno FileTree := do
  let _ ← routeOf target
  t.makeEntry path (.link (FileName.settled target))

/-- Removes the file or the link at a path. -/
def remove (t : FileTree) (path : Text) : Except Errno FileTree := do
  match ← t.parentOf path with
  | (_, .special) => .error .isDirectory
  | (directory, .name name trailing) =>
    if FileName.length name > nameLimit then .error .nameTooLong
    else
      match t.get? (directory ++ [name]) with
      | none => .error .noEntry
      | some (.dir _) => .error .isDirectory
      | some _ =>
        if trailing then .error .notDirectory else .ok (t.erase (directory ++ [name]))

/-- Gives the file at a place the name at a path, instead of the file or the link that has it. A
directory on the way to the file is not empty, which is noticed before that it is a directory. -/
def rename (t : FileTree) (source : Place) (path : Text) : Except Errno FileTree := do
  match ← t.parentOf path with
  | (_, .special) => .error .busy
  | (directory, .name name trailing) =>
    if FileName.length name > nameLimit then .error .nameTooLong
    else if trailing then .error .notDirectory
    else if (directory ++ [name]).isPrefixOf source.dropLast then .error .notEmpty
    else
      match t.get? (directory ++ [name]), t.get? source with
      | some (.dir _), _ => .error .isDirectory
      | _, none => .error .noEntry
      | _, some entry => .ok ((t.erase source).set (directory ++ [name]) entry)

/-! ## Temporary files -/

/-- The name of a temporary file, by its number. -/
def scratchName (n : Nat) : Name :=
  let digits := Text.ofNat n
  lit ".tmp-" ++ List.replicate (8 - digits.length) (chr '0') ++ digits ++ lit ".json"

/-- The first name for a temporary file that a directory lacks, among so many candidates. -/
def freeScratchName (t : FileTree) (directory : Place) : Nat → Nat → Name
  | 0, n => scratchName n
  | tries + 1, n =>
    if (t.get? (directory ++ [scratchName n])).isNone then scratchName n
    else freeScratchName t directory tries (n + 1)

/-- The name of a new temporary file of a directory. There are more candidates than entries. -/
def newScratchName (t : FileTree) (directory : Place) : Name :=
  t.freeScratchName directory t.entries.length 0

/-- The directory that a path leads to. -/
def directoryAt (t : FileTree) (path : Text) : Except Errno Place := do
  match ← t.resolve .reading path with
  | .entry place (.dir _) => .ok place
  | .entry _ _ => .error .notDirectory
  | .vacant _ _ => .error .noEntry

/-- The absolute path of the working directory. -/
def workingPath (t : FileTree) : Text :=
  Path.slash :: Text.join [Path.slash] t.workingDir

/-- A temporary file that is open: its path, its place and its serial number. -/
structure Scratch where
  path : Text
  place : Place
  serial : Nat

/-- Makes a temporary file for its owner alone in the directory at an absolute path. -/
def makeScratch (t : FileTree) (directory : Text) : Except FileFault (Scratch × FileTree) := do
  FileFault.checkPath directory
  match t.directoryAt directory with
  | .error errno => .error (.system errno (Path.join directory (scratchName 0)) none)
  | .ok place =>
    let name := t.newScratchName place
    let path := Path.join directory name
    if FileName.length path ≥ pathLimit then .error (.system .nameTooLong path none)
    else .ok (⟨path, place ++ [name], t.nextSerial⟩, t.addFile (place ++ [name]) 0o600)

end FileTree

end Keybox

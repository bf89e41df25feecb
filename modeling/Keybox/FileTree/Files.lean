import Keybox.FileTree.Operations

/-!
# Working with files

File operations as actions on a tree that may fail. An action refuses a path that is no file name
before it touches the tree, and a failure names the path as it was given.

Two ways of writing a whole file are built from them. Plain writing opens the file, emptied, and
fills it. Atomic writing fills a temporary file beside it and renames that.
-/

namespace Keybox

/-- An action on a tree. When it fails, what it did to the tree before stays done. -/
abbrev FileAct (α : Type) := ExceptT FileFault (StateM FileTree) α

namespace FileAct

/-- The action of a function that gives a result and a new tree, or fails. -/
def ofStep {α : Type} (f : FileTree → Except FileFault (α × FileTree)) : FileAct α :=
  fun t =>
    match f t with
    | .error e => (.error e, t)
    | .ok (a, t') => (.ok a, t')

/-- The action of a function that changes the tree and cannot fail. -/
def ofUpdate (f : FileTree → FileTree) : FileAct Unit :=
  ofStep fun t => .ok ((), f t)

/-- An operation on a path, refused if the path is no file name. -/
def onPath {α : Type} (path : Text) (f : FileTree → Except Errno (α × FileTree)) : FileAct α :=
  ofStep fun t => do
    FileFault.checkPath path
    FileFault.named path none (f t)

/-- The content of a file. -/
def read (path : Text) : FileAct Bytes :=
  onPath path fun t => (t.contentAt path).map fun content => (content, t)

/-- Opens a file, emptied, for writing. -/
def openEmpty (path : Text) (mode : Nat) : FileAct Nat :=
  onPath path fun t => t.openEmpty path mode

/-- Opens a file for writing at its end. -/
def openAppend (path : Text) : FileAct Nat :=
  onPath path fun t => t.openAppend path FileTree.plainFileMode

/-- Writes to an open file. -/
def append (serial : Nat) (content : Bytes) : FileAct Unit :=
  ofUpdate fun t => t.append serial content

/-- Changes the mode of an open file. -/
def changeMode (serial mode : Nat) : FileAct Unit :=
  ofUpdate fun t => t.changeMode serial mode

/-- Makes a directory. -/
def makeDirectory (path : Text) (mode : Nat) : FileAct Unit :=
  onPath path fun t => (t.makeDirectory path mode).map fun t' => ((), t')

/-- Makes a link to a target. -/
def makeLink (target path : Text) : FileAct Unit :=
  ofStep fun t => do
    FileFault.checkPath target
    FileFault.checkPath path
    FileFault.named target (some path) ((t.makeLink target path).map fun t' => ((), t'))

/-- Removes a file or a link. -/
def remove (path : Text) : FileAct Unit :=
  onPath path fun t => (t.remove path).map fun t' => ((), t')

/-- Whether a path leads to an entry; a path that is no file name does not. -/
def isThere (t : FileTree) (path : Text) : Bool :=
  match FileFault.checkPath path with
  | .ok () => t.isThere path
  | .error _ => false

/-- Whether a path leads to a directory; a path that is no file name does not. -/
def isDirectory (t : FileTree) (path : Text) : Bool :=
  match FileFault.checkPath path with
  | .ok () => t.isDirectory path
  | .error _ => false

/-- Makes a directory unless it is there already. -/
def ensureDirectory (path : Text) (mode : Nat) : FileAct Unit :=
  tryCatch (makeDirectory path mode) fun fault => do
    let t ← get
    if fault.isSystem ∧ isDirectory t path then pure () else throw fault

/-- An action whose only failure to count is one other than that something is there already. -/
def unlessThere (act : FileAct Unit) : FileAct Unit :=
  tryCatch act fun fault =>
    match fault with
    | .system .alreadyThere _ _ => pure ()
    | _ => throw fault

/-- The part of a path before its last component and that component, for a path that may end in
slashes. -/
def splitLast (path : Text) : Text × Text :=
  if Path.baseName path = [] then
    (Path.dirName (Path.dirName path), Path.baseName (Path.dirName path))
  else (Path.dirName path, Path.baseName path)

/-- Whether a path has a part before its last component that leads to nothing. -/
def lacksParent (t : FileTree) (path : Text) : Bool :=
  let parts := splitLast path
  !parts.1.isEmpty && !parts.2.isEmpty && !isThere t parts.1

/-- The most missing directories above a path that are made for it. -/
def missingLimit : Nat :=
  990

/-- Makes each missing directory above a path and then the last one, all in the way that `make`
makes one, if no more than so many are missing above it. Those above have the usual mode, and a
directory that comes to be there while they are made is kept. -/
def makeEachWithin (make : Text → Nat → FileAct Unit) : Nat → Text → Nat → FileAct Unit
  | 0, path, mode => do
    let t ← get
    if lacksParent t path then throw .tooManyMissing else make path mode
  | missing + 1, path, mode => do
    let t ← get
    if lacksParent t path then
      let parts := splitLast path
      unlessThere (makeEachWithin make missing parts.1 FileTree.plainDirMode)
      if parts.2 = Path.here then pure () else make path mode
    else make path mode

/-- Makes a new directory of the given mode and those above it that are missing. -/
def makeDirectories (path : Text) (mode : Nat) : FileAct Unit :=
  makeEachWithin makeDirectory missingLimit path mode

/-- Makes a directory of the given mode and those above it, each unless it is there already. -/
def ensureDirectories (path : Text) (mode : Nat) : FileAct Unit :=
  makeEachWithin ensureDirectory missingLimit path mode

/-- Writes a file with a mode, and sets the mode also if the file was there before. -/
def writePlain (path : Text) (mode : Nat) (openMode : Nat) (content : Bytes) : FileAct Unit := do
  let serial ← openEmpty path openMode
  changeMode serial mode
  append serial content

/-- Renames a temporary file to a path. -/
def renameScratch (s : FileTree.Scratch) (path : Text) : FileAct Unit :=
  ofStep fun t => do
    FileFault.checkPath path
    FileFault.named s.path (some path) ((t.rename s.place path).map fun t' => ((), t'))

/-- Removes a temporary file. -/
def dropScratch (s : FileTree.Scratch) : FileAct Unit :=
  ofUpdate fun t => t.erase s.place

/-- The directory in which the temporary file for a path is made. -/
def scratchDirectory (t : FileTree) (path : Text) : Text :=
  Path.absolute t.workingPath (if Path.dirName path = [] then Path.here else Path.dirName path)

/-- Writes a file for its owner alone by renaming a temporary one. If that fails the temporary
file is removed. -/
def writeAtomic (path : Text) (content : Bytes) : FileAct Unit := do
  let s ← ofStep fun t => t.makeScratch (scratchDirectory t path)
  append s.serial content
  tryCatch (renameScratch s path) fun fault => do
    dropScratch s
    throw fault

end FileAct

end Keybox

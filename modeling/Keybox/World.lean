import Keybox.Failure
import Keybox.FileTree.Files
import Keybox.Log

/-!
# The world of a store

What the actions of a store work on: the files, the home directory's name, the loggers, and what
has been printed. An action that fails keeps what it did before.
-/

namespace Keybox

/-- The files, the name of the home directory, the time as lines show it, the loggers, and what
was printed as output and on the console. -/
structure World where
  tree : FileTree
  home : Text
  clock : Text
  loggers : Loggers
  output : Text
  console : Text

/-- An action of a store. -/
abbrev Act (α : Type) := ExceptT Failure (StateM World) α

namespace World

/-- The world before the first action, with an empty working directory. The home directory's name
is known as file names are. -/
def initial (workingDir : Place) (home clock : Text) : World where
  tree := FileTree.fresh workingDir
  home := FileName.settled home
  clock := clock
  loggers := Loggers.initial
  output := []
  console := []

/-- The world after a handler got a record. A file does not take a line with a surrogate, which
UTF-8 has no bytes for. -/
def deliver (w : World) (r : LogRecord) : Handler → World
  | .console =>
    if r.level.isShown then { w with console := w.console ++ r.line w.clock } else w
  | .file _ serial =>
    let line := r.line w.clock
    if line.any CodePoint.isSurrogate then w
    else { w with tree := w.tree.append serial (Utf8.encode line) }

/-- The world after a record was logged. -/
def log (w : World) (r : LogRecord) : World :=
  (w.loggers.handlersFor r.name).foldl (fun w h => w.deliver r h) w

end World

namespace Act

/-- The action of an action on the files. -/
def files {α : Type} (act : FileAct α) : Act α :=
  fun w =>
    match act.run w.tree with
    | (.ok a, t) => (.ok a, { w with tree := t })
    | (.error f, t) => (.error (.file f), { w with tree := t })

/-- The action that gives a result or fails, without touching the world. -/
def ofExcept {α ε : Type} (failure : ε → Failure) (r : Except ε α) : Act α :=
  match r with
  | .ok a => pure a
  | .error e => throw (failure e)

/-- Logs a message under a name. -/
def log (name : Text) (level : Level) (message : Text) : Act Unit :=
  modify fun w => w.log ⟨Loggers.canonical name, level, message⟩

/-- Makes a logger: the console first, then a file unless none is asked for or it is attached
already. -/
def makeLogger (name : Text) (logFile : Option Text) : Act Unit := do
  let name := Loggers.canonical name
  modify fun w => { w with loggers := w.loggers.attachConsole name }
  match logFile with
  | none => pure ()
  | some file =>
    let w ← get
    let path := Path.absolute w.tree.workingPath file
    if file = [] ∨ (w.loggers.handlersOf name).any (Handler.isFor path) then pure ()
    else do
      let serial ← files (FileAct.openAppend path)
      modify fun w => { w with loggers := w.loggers.attach name (.file path serial) }

/-- Prints a line of output. -/
def printLine (t : Text) : Act Unit :=
  modify fun w => { w with output := w.output ++ t ++ lit "\n" }

/-- Prints a line on the console. -/
def printError (t : Text) : Act Unit :=
  modify fun w => { w with console := w.console ++ t ++ lit "\n" }

end Act

end Keybox

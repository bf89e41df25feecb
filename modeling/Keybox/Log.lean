import Keybox.Text

/-!
# Loggers

Loggers by name, with the handlers attached to each. A record goes to the handlers of the logger
it is given to, then to those of the loggers its name lies under: the name `a.b` lies under `a`,
and every name under the root logger, which the empty name and `root` stand for.

A console handler takes records from information upwards, a file handler takes all.
-/

namespace Keybox

/-- How serious a record is. -/
inductive Level where
  | debug
  | info
  | warning
  | error
deriving DecidableEq, Repr

namespace Level

/-- The word for a level in a line. -/
def word : Level → Text
  | debug => lit "DEBUG"
  | info => lit "INFO"
  | warning => lit "WARNING"
  | error => lit "ERROR"

/-- The level that a word asks for. -/
def ofWord? (t : Text) : Option Level :=
  if t = lit "debug" then some debug
  else if t = lit "info" then some info
  else if t = lit "warning" then some warning
  else if t = lit "error" then some error
  else none

/-- Whether a console shows records of a level. -/
def isShown : Level → Bool
  | debug => false
  | _ => true

end Level

/-- Where a logger's records go: the console, or an open file that was opened at a path. -/
inductive Handler where
  | console
  | file (path : Text) (serial : Nat)
deriving DecidableEq

/-- Whether a handler is for the file at a path. -/
def Handler.isFor (path : Text) : Handler → Bool
  | .console => false
  | .file p _ => p == path

/-- A logger and its handlers in the order in which they were attached. -/
structure Logger where
  name : Text
  handlers : List Handler
deriving DecidableEq

/-- The loggers in the order in which they were made. -/
abbrev Loggers := List Logger

namespace Loggers

/-- The name of the root logger. -/
def rootName : Text :=
  lit "root"

/-- The name a logger is known by. -/
def canonical (name : Text) : Text :=
  if name = [] then rootName else name

/-- The logger of a name. -/
def find? (ls : Loggers) (name : Text) : Option Logger :=
  List.find? (fun l => l.name == name) ls

/-- The handlers of a name; none if there is no logger. -/
def handlersOf (ls : Loggers) (name : Text) : List Handler :=
  match ls.find? name with
  | some l => l.handlers
  | none => []

/-- The loggers with a handler attached to a name, which makes the logger if there is none. -/
def attach (ls : Loggers) (name : Text) (h : Handler) : Loggers :=
  if (ls.find? name).isSome then
    ls.map fun l => if l.name = name then { l with handlers := l.handlers ++ [h] } else l
  else ls ++ [⟨name, [h]⟩]

/-- The loggers with a console handler on a name, attached unless there is one. -/
def attachConsole (ls : Loggers) (name : Text) : Loggers :=
  if .console ∈ ls.handlersOf name then ls else ls.attach name .console

/-- Where the last point stands in a text, unless that is at its front. -/
def lastPoint? (t : Text) : Option Nat :=
  let after := t.reverse.takeWhile fun c => c != chr '.'
  let i := t.length - after.length - 1
  if i = 0 then none else some i

/-- The names that a name may lie under, the nearest first: what stands before its last point, and
so on from two code points before that one. -/
def enclosingWithin (name : Text) : Nat → Nat → List Text
  | 0, _ => []
  | bound + 1, stop =>
    match lastPoint? (name.take stop) with
    | none => []
    | some i => name.take i :: enclosingWithin name bound (i - 1)

/-- The names that a name may lie under, the nearest first. -/
def enclosing (name : Text) : List Text :=
  enclosingWithin name name.length name.length

/-- When a logger was made, as the number of loggers made before it. -/
def position (ls : Loggers) (name : Text) : Nat :=
  ls.findIdx fun l => l.name == name

/-- Whether a name that encloses another takes it in. There must be a logger of that name, and if
the name is the beginning of the root's own name, only loggers made later come under it. -/
def takesIn (ls : Loggers) (outer inner : Text) : Bool :=
  (ls.find? outer).isSome &&
    (!Text.beginsWith outer rootName || decide (ls.position outer < ls.position inner))

/-- The names of the loggers that get a record for a name, itself first, going up at most so many
times. -/
def chainWithin (ls : Loggers) : Nat → Text → List Text
  | 0, name => [name]
  | bound + 1, name =>
    if name = rootName then [rootName]
    else
      match (enclosing name).find? fun n => ls.takesIn n name with
      | some n => name :: chainWithin ls bound n
      | none => [name, rootName]

/-- The names of the loggers that get a record for a name. -/
def chain (ls : Loggers) (name : Text) : List Text :=
  ls.chainWithin name.length name

/-- The handlers that get a record for a name, in the order in which they get it. -/
def handlersFor (ls : Loggers) (name : Text) : List Handler :=
  (ls.chain name).flatMap ls.handlersOf

/-- The loggers there are before any is made: the store's own, on the console. -/
def initial : Loggers :=
  [⟨lit "keystore", [.console]⟩]

end Loggers

/-- A record: who logs it, how serious it is, and what it says. -/
structure LogRecord where
  name : Text
  level : Level
  message : Text
deriving DecidableEq

namespace LogRecord

/-- The line of a record, with the time as it is to be shown. -/
def line (clock : Text) (r : LogRecord) : Text :=
  clock ++ lit " - " ++ r.name ++ lit " - " ++ r.level.word ++ lit " - " ++ r.message ++ lit "\n"

end LogRecord

end Keybox

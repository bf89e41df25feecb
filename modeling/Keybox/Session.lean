import Keybox.CommandLine.Run

/-!
# Sessions

A sequence of steps on one world: changes to its files, and everything a caller can do with a
store, a key pair, the loggers and the command line. The session remembers the store and the pair
that later steps refer to.
-/

namespace Keybox

/-- The world, the current store and the current pair. -/
structure Session where
  world : World
  store : Option Store
  pair : Option KeyPair

/-- A step of a session. -/
inductive Step where
  | makeDirectory (path : Text)
  | putFile (path : Text) (content : Bytes) (mode : Nat)
  | removeFile (path : Text)
  | makeLink (path target : Text)
  | useStore (store : Store)
  | useSettings (settings : Json)
  | generate (source : RandomSource) (account : Text)
  | usePair (pair : KeyPair)
  | write (network : Text)
  | load (network account : Text)
  | pathFor (network account : Text)
  | base
  | home
  | writePair (path : Text) (atomic : Bool)
  | readPair (path account : Text)
  | makeLogger (name : Text) (logFile : Option Text)
  | log (name message : Text) (level : Option Level)
  | run (words : List Text) (source : RandomSource)

/-- What a step answers. -/
inductive Reply where
  | nothing
  | text (value : Text)
  | loaded (pair : KeyPair) (same : Bool)
  | handlers (handlers : List Handler)
  | exit (code : Nat)

namespace Session

/-- The session before its first step. -/
def initial (workingDir : Place) (home clock : Text) : Session where
  world := World.initial workingDir home clock
  store := none
  pair := none

/-- The reply to a pair that was loaded: whether it agrees with the current one. -/
def loadedReply (s : Session) (p : KeyPair) : Reply :=
  .loaded p (s.pair.any p.agrees)

/-- An action on the world as a step that keeps the store and the pair. -/
def onWorld {α : Type} (s : Session) (act : Act α) (reply : World → α → Reply) :
    Except Failure Reply × Session :=
  match act.run s.world with
  | (.ok a, w) => (.ok (reply w a), { s with world := w })
  | (.error f, w) => (.error f, { s with world := w })

/-- A step with the current store; without one it has no effect. -/
def onStore {α : Type} (s : Session) (act : Store → Act α) (reply : α → Reply) :
    Except Failure Reply × Session :=
  match s.store with
  | some store => s.onWorld (act store) fun _ a => reply a
  | none => (.ok .nothing, s)

/-- A step with the current pair; without one it has no effect. -/
def onPair (s : Session) (act : KeyPair → Act Text) : Except Failure Reply × Session :=
  match s.pair with
  | some p => s.onWorld (act p) fun _ t => .text t
  | none => (.ok .nothing, s)

/-- The session after a step, and the step's answer. -/
def step (s : Session) : Step → Except Failure Reply × Session
  | .makeDirectory path =>
    s.onWorld (Act.files (FileAct.makeDirectories path FileTree.plainDirMode)) fun _ _ => .nothing
  | .putFile path content mode =>
    s.onWorld (Act.files (FileAct.writePlain path mode FileTree.plainFileMode content))
      fun _ _ => .nothing
  | .removeFile path => s.onWorld (Act.files (FileAct.remove path)) fun _ _ => .nothing
  | .makeLink path target =>
    s.onWorld (Act.files (FileAct.makeLink target path)) fun _ _ => .nothing
  | .useStore store => (.ok .nothing, { s with store := some store })
  | .useSettings v =>
    match Settings.ofJson v with
    | .ok settings => (.ok .nothing, { s with store := some settings.store })
    | .error f => (.error (.settings (.invalid f)), s)
  | .generate source account =>
    match KeyPair.generate source account with
    | .ok p => (.ok (.text p.shown), { s with pair := some p })
    | .error f => (.error (.random f), s)
  | .usePair p => (.ok (.text p.shown), { s with pair := some p })
  | .write network =>
    match s.pair with
    | some p => s.onStore (fun store => store.write p network) .text
    | none => (.ok .nothing, s)
  | .load network account => s.onStore (fun store => store.load network account) s.loadedReply
  | .pathFor network account => s.onStore (fun store => store.pathFor network account) .text
  | .base => s.onStore (fun store => store.base) .text
  | .home => s.onWorld Store.homeDir fun _ t => .text t
  | .writePair path atomic => s.onPair fun p => Store.writePair p path atomic
  | .readPair path account => s.onWorld (Store.readPair path account) fun _ p => s.loadedReply p
  | .makeLogger name logFile =>
    s.onWorld (Act.makeLogger name logFile) fun w _ =>
      .handlers (w.loggers.handlersOf (Loggers.canonical name))
  | .log name message level =>
    match level with
    | some level => s.onWorld (Act.log name level message) fun _ _ => .nothing
    | none => (.ok .nothing, s)
  | .run words source => s.onWorld (CommandLine.run words source) fun _ code => .exit code

end Session

end Keybox

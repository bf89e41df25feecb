import Keybox.CommandLine.Run
import Keybox.Log.Clock
import Std.Time.DateTime.Timestamp

/-!
# The program

The command line on the files of the machine. What is decided, and every text, comes from the
library; here is only the exchange with the operating system.
-/

namespace Keybox

namespace Host

/-- An action on the machine that may fail as the library's actions do. -/
abbrev HostAct (α : Type) := ExceptT Failure IO α

/-- A text as a string. -/
def string (t : Text) : String :=
  String.ofList (t.map fun c => Char.ofNat c.val)

/-- The number of an error as the operating system reports it. -/
def reportedNumber : IO.Error → Nat
  | .alreadyExists _ n _ => n.toNat
  | .otherError n _ => n.toNat
  | .resourceBusy n _ => n.toNat
  | .resourceVanished n _ => n.toNat
  | .unsupportedOperation n _ => n.toNat
  | .hardwareFault n _ => n.toNat
  | .unsatisfiedConstraints n _ => n.toNat
  | .illegalOperation n _ => n.toNat
  | .protocolError n _ => n.toNat
  | .timeExpired n _ => n.toNat
  | .interrupted _ n _ => n.toNat
  | .noFileOrDirectory _ n _ => n.toNat
  | .invalidArgument _ n _ => n.toNat
  | .permissionDenied _ n _ => n.toNat
  | .resourceExhausted _ n _ => n.toNat
  | .inappropriateType _ n _ => n.toNat
  | .noSuchThing _ n _ => n.toNat
  | .unexpectedEof => 0
  | .userError _ => 0

/-- The number of an error without its sign, which some operations turn around. -/
def errorNumber (e : IO.Error) : Nat :=
  let n := reportedNumber e
  if n < Nat.pow 2 31 then n else Nat.pow 2 32 - n

/-- The error of a number. -/
def errnoOf? (n : Nat) : Option Errno :=
  [.noEntry, .noPermission, .busy, .alreadyThere, .notDirectory, .isDirectory, .nameTooLong,
    .notEmpty, .tooManyLinks].find? fun (e : Errno) => e.code == n

/-- An operation on a path, its error as the library's where there is one. -/
def attempt {α : Type} (path : Text) (second : Option Text) (act : IO α) : HostAct α := do
  match FileFault.checkPath path with
  | .error fault => throw (.file fault)
  | .ok () =>
    match ← act.toBaseIO with
    | .ok a => return a
    | .error e =>
      match errnoOf? (errorNumber e) with
      | some errno => throw (.file (.system errno path second))
      | none => ExceptT.lift (throw e)

/-- The content of a file. -/
def read (path : Text) : HostAct Bytes := do
  let content ← attempt path none (IO.FS.readBinFile (string path))
  return content.toList

/-- The rights of the owner alone, to enter a directory or not. -/
def ownerOnly (enter : Bool) : IO.FileRight :=
  ⟨⟨true, true, enter⟩, ⟨false, false, false⟩, ⟨false, false, false⟩⟩

/-- Writes a file in place. -/
def writePlain (path : Text) (content : Bytes) : HostAct Unit :=
  attempt path none do
    let h ← IO.FS.Handle.mk (string path) .write
    IO.setAccessRights (string path) (ownerOnly false)
    h.write ⟨content.toArray⟩
    h.flush

/-- Writes a file by renaming a temporary one. -/
def writeAtomic (path : Text) (content : Bytes) : HostAct Unit := do
  let entropy ← ExceptT.lift (IO.getRandomBytes 4)
  let number := entropy.toList.foldl (fun n b => n * 256 + b.toNat) 0
  let directory := if Path.dirName path = [] then Path.here else Path.dirName path
  let scratch := Path.join directory (FileTree.scratchName (number % 100000000))
  attempt scratch none do
    let h ← IO.FS.Handle.mk (string scratch) .writeNew
    IO.setAccessRights (string scratch) (ownerOnly false)
    h.write ⟨content.toArray⟩
    h.flush
  tryCatch (attempt scratch (some path) (IO.FS.rename (string scratch) (string path)))
    fun failure => do
      attempt scratch none (IO.FS.removeFile (string scratch))
      throw failure

/-- Makes a directory for the owner alone, and those above it that are missing. -/
def makeDirectories (path : Text) : HostAct Unit := do
  if Path.dirName path ≠ [] then
    attempt (Path.dirName path) none (IO.FS.createDirAll (string (Path.dirName path)))
  tryCatch
    (attempt path none do
      IO.FS.createDir (string path)
      IO.setAccessRights (string path) (ownerOnly true))
    fun failure =>
      match failure with
      | .file (.system .alreadyThere _ _) => pure ()
      | _ => throw failure

/-- Logs a message to the console and to the log file. -/
def log (logFile : Option IO.FS.Handle) (level : Level) (message : Text) : HostAct Unit :=
  ExceptT.lift do
    let now ← Std.Time.Timestamp.now
    let clock := Clock.stamp now.toMillisecondsSinceUnixEpoch.val.toNat
    let line := string (LogRecord.line clock ⟨Store.loggerName, level, message⟩)
    if level.isShown then IO.eprint line
    match logFile with
    | some h =>
      h.putStr line
      h.flush
    | none => pure ()

/-- The path of an account's file in a store. -/
def pathFor (s : Store) (network account : Text) : HostAct Text := do
  match s.baseDir with
  | some dir => return Store.pathIn dir network account
  | none =>
    let home ← ExceptT.lift (IO.getEnv "HOME")
    match Store.homeDir? (lit (home.getD "~")) with
    | some dir => return Store.pathIn dir network account
    | none => throw .homeless

/-- A random source that draws from the machine. -/
def randomSource : IO RandomSource := do
  match ← (IO.getRandomBytes 32).toBaseIO with
  | .ok bytes =>
    match Seed.ofBytes? bytes.toList with
    | some seed => return .seed seed
    | none => return .unavailable (lit "short read from the random source")
  | .error e => return .unavailable (lit (toString e))

/-- Prints lines of output. -/
def printLines (lines : List Text) : HostAct Unit :=
  ExceptT.lift (lines.forM fun t => IO.println (string t))

/-- Carries out a command. -/
def carryOut (logFile : Option IO.FS.Handle) (s : Store) (network : Text)
    (i : CommandLine.Invocation) : HostAct Unit := do
  match i.command with
  | .generate =>
    match KeyPair.generate (← ExceptT.lift randomSource) i.account with
    | .error fault => throw (.random fault)
    | .ok p =>
      let path ← pathFor s network p.account
      if s.createDirs then makeDirectories (Path.dirName path)
      if s.atomicWrite then writeAtomic path (Store.contentOf p)
      else writePlain path (Store.contentOf p)
      log logFile .info (Store.wroteNote p path)
      printLines (CommandLine.generatedLines p path)
  | .display =>
    let path ← pathFor s network i.account
    let content ← read path
    match KeyPair.ofDocument (.bytes content) i.account (some path) with
    | .ok p =>
      log logFile .debug (Store.loadedNote i.account path)
      printLines (CommandLine.displayedLines p)
    | .error fault =>
      match fault with
      | .rejected r => log logFile .warning (Store.rejectedNote r path)
      | .oversized _ => pure ()
      throw (.document fault)
  | .locate => printLines [← pathFor s network i.account]

/-- The settings of an invocation. -/
def settingsOf (i : CommandLine.Invocation) : HostAct Settings := do
  match i.configFile with
  | none => return CommandLine.withOptions i Settings.default
  | some file =>
    match Settings.ofBytes (← read file) with
    | .ok s => return CommandLine.withOptions i s
    | .error fault => throw (.settings fault)

/-- Ends a run that failed: reported failures have their line and code one, others are errors of
the program. -/
def endRun (reports : Family → Bool) (line : Failure → Text) (failure : Failure) : IO UInt32 := do
  if reports failure.family then
    IO.eprintln (string (line failure))
    return 1
  else throw (IO.userError (string failure.message))

/-- Runs an invocation with settings. -/
def runWith (s : Settings) (i : CommandLine.Invocation) : IO UInt32 := do
  let logFile ←
    match CommandLine.logFileOf s with
    | none => pure none
    | some file => some <$> IO.FS.Handle.mk (string file) .append
  match ← (carryOut logFile s.store (CommandLine.networkOf i s) i).run with
  | .ok () => return 0
  | .error failure => endRun CommandLine.reportsInCommand CommandLine.commandErrorLine failure

/-- Runs a command line. -/
def run (words : List Text) : IO UInt32 := do
  match CommandLine.Invocation.ofWords words with
  | .error (.help text) =>
    IO.print (string text)
    return 0
  | .error (.misuse text) =>
    IO.eprint (string text)
    return 2
  | .ok i =>
    match ← (settingsOf i).run with
    | .ok s => runWith s i
    | .error failure =>
      endRun CommandLine.reportsInSettings CommandLine.settingsErrorLine failure

end Host

end Keybox

/-- The program's entry point. -/
def main (args : List String) : IO UInt32 :=
  Keybox.Host.run (args.map Keybox.lit)

import Keybox.World

/-!
# The store

Key pairs in files, one for each account, under the directory `.near-credentials` of a base
directory and there under the name of a network. Files are for their owner alone; there are no
locks, so the last of several writers wins.
-/

namespace Keybox

/-- A store: its base directory, the home directory if there is none, and how it writes. -/
structure Store where
  baseDir : Option Text
  atomicWrite : Bool
  createDirs : Bool
deriving DecidableEq

/-- The store that settings describe. -/
def Settings.store (s : Settings) : Store where
  baseDir := s.baseDir
  atomicWrite := s.atomicWrite
  createDirs := s.createDirs

namespace Store

/-- The directory of all credentials. -/
def credentialsDir : Text :=
  lit ".near-credentials"

/-- The name of the logger for what the store does. -/
def loggerName : Text :=
  lit "keystore"

/-- The mode of a credentials file. -/
def fileMode : Nat :=
  0o600

/-- The mode of a network's directory. -/
def dirMode : Nat :=
  0o700

/-- The path of an account's file. -/
def pathIn (baseDir network account : Text) : Text :=
  Path.join (Path.join (Path.join baseDir credentialsDir) network) (account ++ lit ".json")

/-- The home directory by its name: a name that begins with a tilde stands for no directory. -/
def homeDir? (home : Text) : Option Text :=
  let name := Text.dropEndWhile (· = Path.slash) home
  let dir := if name = [] then [Path.slash] else name
  if Text.beginsWith (lit "~") dir then none else some (Path.tidy dir)

/-- The home directory. -/
def homeDir : Act Text := do
  let w ← get
  match homeDir? w.home with
  | some dir => pure dir
  | none => throw .homeless

/-- The base directory of a store. -/
def base (s : Store) : Act Text :=
  match s.baseDir with
  | some dir => pure dir
  | none => homeDir

/-- The path of an account's file in a store. -/
def pathFor (s : Store) (network account : Text) : Act Text := do
  let dir ← s.base
  return pathIn dir network account

/-- The bytes of a pair's file. -/
def contentOf (p : KeyPair) : Bytes :=
  Utf8.encode p.json

/-- Writes a pair to a file, without the log. -/
def writeFile (path : Text) (atomic : Bool) (p : KeyPair) : FileAct Unit :=
  if atomic then FileAct.writeAtomic path (contentOf p)
  else FileAct.writePlain path fileMode fileMode (contentOf p)

/-- What is logged when a pair was written. -/
def wroteNote (p : KeyPair) (path : Text) : Text :=
  lit "Wrote key pair for " ++ p.account ++ lit " to " ++ path

/-- What is logged when the pair of an account was loaded. -/
def loadedNote (account path : Text) : Text :=
  lit "Loaded key pair for " ++ account ++ lit " from " ++ path

/-- What is logged when a file was rejected. -/
def rejectedNote (r : Rejection) (path : Text) : Text :=
  lit "Rejected credentials file " ++ path ++ lit ": " ++ r.message

/-- Writes a pair to a file. -/
def writePair (p : KeyPair) (path : Text) (atomic : Bool) : Act Text := do
  Act.files (writeFile path atomic p)
  Act.log loggerName .info (wroteNote p path)
  return path

/-- Reads a pair from a file that is expected to hold an account's. -/
def readPair (path expected : Text) : Act KeyPair := do
  let content ← Act.files (FileAct.read path)
  match KeyPair.ofDocument (.bytes content) expected (some path) with
  | .ok p =>
    Act.log loggerName .debug (loadedNote expected path)
    return p
  | .error fault =>
    match fault with
    | .rejected r => Act.log loggerName .warning (rejectedNote r path)
    | .oversized _ => pure ()
    throw (.document fault)

/-- Writes a pair into a store. -/
def write (s : Store) (p : KeyPair) (network : Text) : Act Text := do
  let path ← s.pathFor network p.account
  if s.createDirs then
    Act.files (FileAct.ensureDirectories (Path.dirName path) dirMode)
  writePair p path s.atomicWrite

/-- Loads the pair of an account from a store. -/
def load (s : Store) (network account : Text) : Act KeyPair := do
  let path ← s.pathFor network account
  readPair path account

end Store

end Keybox

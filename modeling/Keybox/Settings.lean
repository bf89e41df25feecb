import Keybox.Json.Reader
import Keybox.Json.Shown
import Keybox.Json.Unreadable

/-!
# Settings

The settings of a store, as an object of a document gives them. Each member is optional and of
one type; members with other names are ignored. The first unusable one, in a fixed order, is
reported with its value.
-/

namespace Keybox

/-- The settings of a store. Without a base directory the home directory is used, without a log
file none is written. -/
structure Settings where
  baseDir : Option Text
  network : Text
  atomicWrite : Bool
  createDirs : Bool
  logFile : Option Text
deriving DecidableEq

namespace Settings

/-- The settings that a document without members gives. -/
def default : Settings where
  baseDir := none
  network := lit "testnet"
  atomicWrite := false
  createDirs := false
  logFile := none

/-- Why a value gives no settings. -/
inductive Fault where
  | notObject
  | notText (field : Text) (found : Json)
  | notNetwork (found : Json)
  | notFlag (field : Text) (found : Json)

/-- The message for a fault. -/
def Fault.message : Fault → Text
  | notObject => lit "Config must be a JSON object"
  | notText field found =>
    lit "Config '" ++ field ++ lit "' must be a string, got " ++ found.shown
  | notNetwork found =>
    lit "Config 'network_id' must be a non-empty string, got " ++ found.shown
  | notFlag field found =>
    lit "Config '" ++ field ++ lit "' must be true/false, got " ++ found.shown

/-- A member that is a text or null, if it is there. -/
def optionalText (members : Members) (field : Text) : Except Fault (Option Text) :=
  match members.find? field with
  | none => .ok none
  | some .null => .ok none
  | some (.text t) => .ok (some t)
  | some v => .error (.notText field v)

/-- The member that names the network: a text that is not empty. -/
def networkText (members : Members) : Except Fault Text :=
  match members.find? (lit "network_id") with
  | none => .ok default.network
  | some (.text t) => if t = [] then .error (.notNetwork (.text t)) else .ok t
  | some v => .error (.notNetwork v)

/-- A member that is a boolean, if it is there. -/
def flag (members : Members) (field : Text) : Except Fault Bool :=
  match members.find? field with
  | none => .ok false
  | some (.bool b) => .ok b
  | some v => .error (.notFlag field v)

/-- The settings of an object. -/
def ofMembers (members : Members) : Except Fault Settings := do
  let baseDir ← optionalText members (lit "base_dir")
  let logFile ← optionalText members (lit "log_file")
  let network ← networkText members
  let atomicWrite ← flag members (lit "atomic_write")
  let createDirs ← flag members (lit "create_dirs")
  return ⟨baseDir, network, atomicWrite, createDirs, logFile⟩

/-- The settings of a value. -/
def ofJson : Json → Except Fault Settings
  | .object members => ofMembers members
  | _ => .error .notObject

/-- Line ends of all three kinds as line feeds, for a text that may follow a carriage return. -/
def unifyLineEndsAfter : Bool → Text → Text
  | _, [] => []
  | afterReturn, c :: rest =>
    if c = chr '\r' then chr '\n' :: unifyLineEndsAfter true rest
    else if c = chr '\n' ∧ afterReturn then unifyLineEndsAfter false rest
    else c :: unifyLineEndsAfter false rest

/-- Line ends of all three kinds as line feeds. -/
def unifyLineEnds (t : Text) : Text :=
  unifyLineEndsAfter false t

/-- Why the content of a file gives no settings. -/
inductive ContentFault where
  | unreadable (cause : Unreadable)
  | invalid (fault : Fault)

/-- The message for a fault. -/
def ContentFault.message : ContentFault → Text
  | unreadable cause => cause.message
  | invalid f => f.message

/-- The settings in the content of a file. Offsets count after the line ends are unified. -/
def ofBytes (content : Bytes) : Except ContentFault Settings :=
  match Utf8.decode content with
  | .error f => .error (.unreadable (.encoding f))
  | .ok t =>
    match Json.read (unifyLineEnds t) with
    | .error f => .error (.unreadable (.grammar (unifyLineEnds t) f))
    | .ok v => (ofJson v).mapError .invalid

/-- A text as the settings show it, none by a word. -/
def shownOption : Option Text → Text
  | none => Json.null.shown
  | some t => t.quoted

/-- How settings are shown. -/
def shown (s : Settings) : Text :=
  lit "KeystoreConfig(base_dir=" ++ shownOption s.baseDir ++
    lit ", network_id=" ++ s.network.quoted ++
    lit ", atomic_write=" ++ (Json.bool s.atomicWrite).shown ++
    lit ", create_dirs=" ++ (Json.bool s.createDirs).shown ++ lit ")"

end Settings

end Keybox

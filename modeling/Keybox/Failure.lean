import Keybox.FileTree.Fault
import Keybox.KeyPair.Document
import Keybox.KeyPair.Random
import Keybox.Settings

/-!
# Failures

Everything an action of the store can fail with, and the families that callers tell apart: errors
of the key store itself, errors of the file system, failures of the environment, and unusable
values.
-/

namespace Keybox

/-- Why an action fails. -/
inductive Failure where
  | document (fault : LoadFault)
  | random (fault : DrawFault)
  | file (fault : FileFault)
  | settings (fault : Settings.ContentFault)
  | homeless

/-- The families of failures. -/
inductive Family where
  | keystore
  | system
  | environment
  | value
deriving DecidableEq, Repr

namespace Failure

/-- The message of a failure. -/
def message : Failure → Text
  | document f => f.message
  | random f => f.message
  | file f => f.message
  | settings f => f.message
  | homeless => lit "Could not determine home directory."

/-- The family of a failure. A rejected record is an error of the store, whatever its values. A
document nested too deep and a path with too many missing directories exhaust the environment, an
integer too long is a bad value. -/
def family : Failure → Family
  | document (.rejected _) => .keystore
  | document (.oversized _) => .value
  | random (.unavailable _) => .keystore
  | random (.broken _) => .environment
  | file (.system _ _ _) => .system
  | file .tooManyMissing => .environment
  | file _ => .value
  | settings (.unreadable (.grammar _ (.tooDeep _))) => .environment
  | settings _ => .value
  | homeless => .environment

end Failure

end Keybox

import Keybox.Text.Unencodable

/-!
# File faults

The errors of the file system by their numbers and words, with the path or the two paths they are
about, the two faults of a path that is no file name at all, and that of a path with too many
missing directories.
-/

namespace Keybox

/-- The errors of the file system. -/
inductive Errno where
  | noEntry
  | noPermission
  | busy
  | alreadyThere
  | notDirectory
  | isDirectory
  | nameTooLong
  | notEmpty
  | tooManyLinks
deriving DecidableEq, Repr

namespace Errno

/-- The number of an error. -/
def code : Errno → Nat
  | noEntry => 2
  | noPermission => 13
  | busy => 16
  | alreadyThere => 17
  | notDirectory => 20
  | isDirectory => 21
  | nameTooLong => 36
  | notEmpty => 39
  | tooManyLinks => 40

/-- The words for an error. -/
def words : Errno → Text
  | noEntry => lit "No such file or directory"
  | noPermission => lit "Permission denied"
  | busy => lit "Device or resource busy"
  | alreadyThere => lit "File exists"
  | notDirectory => lit "Not a directory"
  | isDirectory => lit "Is a directory"
  | nameTooLong => lit "File name too long"
  | notEmpty => lit "Directory not empty"
  | tooManyLinks => lit "Too many levels of symbolic links"

end Errno

/-- Why an operation on files fails. -/
inductive FileFault where
  | system (errno : Errno) (path : Text) (second : Option Text)
  | nullInPath
  | unencodable (cause : Unencodable)
  | tooManyMissing
deriving DecidableEq

namespace FileFault

/-- The message of a fault. -/
def message : FileFault → Text
  | system errno path second =>
    lit "[Errno " ++ Text.ofNat errno.code ++ lit "] " ++ errno.words ++ lit ": " ++ path.quoted ++
      (match second with
      | none => []
      | some other => lit " -> " ++ other.quoted)
  | nullInPath => lit "embedded null byte"
  | unencodable cause => cause.message
  | tooManyMissing => lit "maximum recursion depth exceeded"

/-- Whether the file system reported the fault. -/
def isSystem : FileFault → Bool
  | system _ _ _ => true
  | _ => false

/-- A path that can be a file name, or why it cannot. -/
def checkPath (path : Text) : Except FileFault Unit :=
  match Text.notFileName? 0 path with
  | some cause => .error (.unencodable cause)
  | none => if 0 ∈ path then .error .nullInPath else .ok ()

/-- The result of an operation that names its path when it fails. -/
def named {α : Type} (path : Text) (second : Option Text) (r : Except Errno α) :
    Except FileFault α :=
  r.mapError fun errno => .system errno path second

end FileFault

end Keybox

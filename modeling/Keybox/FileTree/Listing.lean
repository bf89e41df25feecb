import Keybox.FileTree
import Keybox.FileTree.Fault
import Keybox.Path

/-!
# Listings

The entries below the working directory by their relative paths, in the order of these paths. A
listing shows what the files hold, so there is none while a file cannot be read.
-/

namespace Keybox

namespace Text

/-- Whether a text comes before another, or is the same, in the order of code points. -/
def precedes : Text → Text → Bool
  | [], _ => true
  | _ :: _, [] => false
  | c :: s, d :: t => decide (c.val < d.val) || (c == d && precedes s t)

end Text

namespace FileTree

/-- An entry below a place, with its path from there. -/
def below? (top : Place) (e : Place × Entry) : Option (Text × Entry) :=
  if top.isPrefixOf e.1 ∧ top.length < e.1.length then
    some (Text.join [Path.slash] (e.1.drop top.length), e.2)
  else none

/-- The entries below the working directory. -/
def rows (t : FileTree) : List (Text × Entry) :=
  (t.entries.filterMap (below? t.workingDir)).mergeSort fun a b => Text.precedes a.1 b.1

/-- Whether an entry can be shown with what it holds. -/
def isShowable : Entry → Bool
  | .file _ mode _ => ownerReads mode
  | _ => true

/-- The entries below the working directory, or the fault of the first that cannot be read. -/
def listing (t : FileTree) : Except FileFault (List (Text × Entry)) :=
  match t.rows.find? fun row => !isShowable row.2 with
  | some row => .error (.system .noPermission row.1 none)
  | none => .ok t.rows

end FileTree

end Keybox

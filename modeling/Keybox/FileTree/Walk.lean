import Keybox.FileTree
import Keybox.FileTree.Fault
import Keybox.Path
import Keybox.Text.FileName

/-!
# Walking a path

From a path to the place it names. Components are taken one by one; a link on the way is replaced
by its target as soon as it is met, at most forty times. The walk ends at an entry, or at a name
that its directory lacks.

A slash at the end asks for a directory. A walk that may create a file refuses it at once.
-/

namespace Keybox

/-- A path taken apart: where it starts, its components, and whether a slash ends it. -/
structure Route where
  absolute : Bool
  names : List Name
  trailing : Bool
deriving DecidableEq

/-- The route of a path. -/
def Route.ofText (p : Text) : Route where
  absolute := Path.isAbsolute p
  names := (Path.components p).map FileName.settled
  trailing := p.getLast? == some Path.slash

/-- What a walk is for. -/
inductive Purpose where
  | reading
  | creating
deriving DecidableEq

/-- Where a walk ends. -/
inductive Target where
  | entry (place : Place) (entry : Entry)
  | vacant (directory : Place) (name : Name)
deriving DecidableEq

/-- The most bytes of a name. -/
def nameLimit : Nat :=
  255

/-- The first number of bytes that is too many for a path. -/
def pathLimit : Nat :=
  4096

/-- The most links on one walk. -/
def linkLimit : Nat :=
  40

namespace FileTree

/-- A walk from a directory, with a function to go on with when a link is met. -/
def walkWith (t : FileTree) (purpose : Purpose)
    (jump : Place → Route → Except Errno Target) (trailing : Bool) :
    Place → List Name → Except Errno Target
  | place, [] =>
    match t.get? place with
    | some e => .ok (.entry place e)
    | none => .error .noEntry
  | place, c :: rest =>
    if c = Path.here then walkWith t purpose jump trailing place rest
    else if c = Path.up then walkWith t purpose jump trailing place.dropLast rest
    else if rest = [] ∧ trailing ∧ purpose = .creating then .error .isDirectory
    else if FileName.length c > nameLimit then .error .nameTooLong
    else
      match t.get? (place ++ [c]) with
      | none => if rest = [] then .ok (.vacant place c) else .error .noEntry
      | some (.dir _) => walkWith t purpose jump trailing (place ++ [c]) rest
      | some (.file serial mode content) =>
        if rest = [] ∧ !trailing then .ok (.entry (place ++ [c]) (.file serial mode content))
        else .error .notDirectory
      | some (.link target) =>
        let r := Route.ofText target
        jump (if r.absolute then [] else place)
          ⟨r.absolute, r.names ++ rest, trailing || (rest.isEmpty && r.trailing)⟩

/-- A walk from a directory that follows at most so many links. -/
def walk (t : FileTree) (purpose : Purpose) : Nat → Place → Route → Except Errno Target
  | 0, place, r =>
    walkWith t purpose (fun _ _ => .error .tooManyLinks) r.trailing place r.names
  | links + 1, place, r =>
    walkWith t purpose (walk t purpose links) r.trailing place r.names

/-- Where a route starts. -/
def startOf (t : FileTree) (r : Route) : Place :=
  if r.absolute then [] else t.workingDir

/-- The route of a path that is neither empty nor too long. -/
def routeOf (path : Text) : Except Errno Route :=
  if path = [] then .error .noEntry
  else if FileName.length path ≥ pathLimit then .error .nameTooLong
  else .ok (Route.ofText path)

/-- Where a path leads. -/
def resolve (t : FileTree) (purpose : Purpose) (path : Text) : Except Errno Target := do
  let r ← routeOf path
  t.walk purpose linkLimit (t.startOf r) r

/-- The last component of a path: a name, or none that could be given to an entry. -/
inductive Last where
  | name (name : Name) (trailing : Bool)
  | special
deriving DecidableEq

/-- The last component of a route. -/
def lastOf (r : Route) : Last :=
  match r.names.getLast? with
  | none => .special
  | some c => if c = Path.here ∨ c = Path.up then .special else .name c r.trailing

/-- The directory that holds the last component of a path, and that component. -/
def parentOf (t : FileTree) (path : Text) : Except Errno (Place × Last) := do
  let r ← routeOf path
  let target ← t.walk .reading linkLimit (t.startOf r) ⟨r.absolute, r.names.dropLast, true⟩
  match target with
  | .entry place (.dir _) => .ok (place, lastOf r)
  | .entry _ _ => .error .notDirectory
  | .vacant _ _ => .error .noEntry

end FileTree

end Keybox

import Keybox.Binary64

/-!
# JSON values

A value as a document gives it: integers of any size stay apart from doubles, and the members of
an object keep the order in which their names first appear.
-/

namespace Keybox

/-- A JSON value. -/
inductive Json where
  | null
  | bool (value : Bool)
  | int (value : Int)
  | real (value : Binary64)
  | text (value : Text)
  | array (items : List Json)
  | object (members : List (Text × Json))

/-- The members of an object. -/
abbrev Members := List (Text × Json)

namespace Json

/-- Whether a value counts as present: null, false, the zeros and all empty values do not. A
double that is no number does. -/
def isTruthy : Json → Bool
  | null => false
  | bool b => b
  | int n => n != 0
  | real x => !x.isZero
  | text t => !t.isEmpty
  | array items => !items.isEmpty
  | object members => !members.isEmpty

/-- The value, or the empty text in place of one that does not count as present. -/
def orEmpty (v : Json) : Json :=
  if v.isTruthy then v else text []

end Json

namespace Members

/-- The value of the first member with a name. -/
def find? (name : Text) : Members → Option Json
  | [] => none
  | (n, v) :: rest => if n = name then some v else find? name rest

/-- The members with a value given to a name: in the place the name has already, else last. -/
def set (name : Text) (value : Json) : Members → Members
  | [] => [(name, value)]
  | (n, v) :: rest =>
    if n = name then (n, value) :: rest else (n, v) :: set name value rest

/-- Members read one after another: a repeated name keeps its first place and its last value. -/
def ofList (members : List (Text × Json)) : Members :=
  members.foldl (fun ms m => set m.1 m.2 ms) []

end Members

end Keybox

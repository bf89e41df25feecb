import Keybox.Binary64.Shortest
import Keybox.Json
import Keybox.Text.Quoted

/-!
# Values in messages

How a value reads in a message: texts in quotes, words with a capital for null and the booleans,
doubles by their shortest decimal, and brackets around items. A message that supplies its own
quotes shows a text plainly.
-/

namespace Keybox

namespace Json

mutual

/-- A value as a message shows it. -/
def shown : Json → Text
  | null => lit "None"
  | bool b => if b then lit "True" else lit "False"
  | int n => Text.ofInt n
  | real x => x.text
  | text t => t.quoted
  | array items => lit "[" ++ shownItems items ++ lit "]"
  | object members => lit "\x7b" ++ shownMembers members ++ lit "\x7d"

/-- The items of an array with commas between them. -/
def shownItems : List Json → Text
  | [] => []
  | [v] => shown v
  | v :: rest => shown v ++ lit ", " ++ shownItems rest

/-- The members of an object with commas between them. -/
def shownMembers : List (Text × Json) → Text
  | [] => []
  | [(name, v)] => name.quoted ++ lit ": " ++ shown v
  | (name, v) :: rest => name.quoted ++ lit ": " ++ shown v ++ lit ", " ++ shownMembers rest

end

/-- A value as a message shows it between quotes of its own. -/
def plain : Json → Text
  | text t => t
  | v => shown v

end Json

end Keybox

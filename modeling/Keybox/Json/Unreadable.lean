import Keybox.Json.Fault
import Keybox.Text.Utf8

/-!
# Unreadable documents

Bytes that are no text, and text that is no document.
-/

namespace Keybox

/-- Why bytes or a text are no JSON document that can be loaded. -/
inductive Unreadable where
  | encoding (fault : Utf8.Fault)
  | grammar (document : Text) (fault : Json.Fault)
deriving DecidableEq

/-- The message of the fault behind an unreadable document. -/
def Unreadable.message : Unreadable → Text
  | encoding f => f.message
  | grammar document f => f.message document

end Keybox

import Keybox.Base58
import Keybox.Json.Shown
import Keybox.Text.Blank
import Keybox.Text.Unencodable

/-!
# Key texts

The text form of a key: the tag of its algorithm, then its bytes in Base58.
-/

namespace Keybox

namespace KeyText

/-- The tag that marks an Ed25519 key. -/
def tag : Text :=
  lit "ed25519:"

/-- Why a value is no key text. -/
inductive Fault where
  | untagged (value : Json)
  | surroundingBlanks (text : Text)
  | notAscii (cause : Unencodable)
  | notDigit (c : CodePoint)

namespace Fault

/-- The message for a fault. -/
def message : Fault → Text
  | untagged v => lit "'" ++ v.plain ++ lit "' is not an Ed25519 key"
  | surroundingBlanks t => lit "'" ++ t ++ lit "' has surrounding whitespace"
  | notAscii cause => cause.message
  | notDigit c => lit "Invalid character " ++ Text.quoted [c]

end Fault

/-- The key text of bytes. -/
def encode (key : Bytes) : Text :=
  tag ++ Base58.encode key

/-- Whether a text carries the tag. -/
def isTagged (t : Text) : Bool :=
  Text.beginsWith tag t

/-- What follows the tag, or as many code points as the tag has. -/
def payload (t : Text) : Text :=
  t.drop tag.length

/-- The bytes of a payload. Blanks at its end are passed over. -/
def decodePayload (p : Text) : Except Fault Bytes :=
  let digits := Text.dropEndWhile CodePoint.isBlank p
  match Text.notAscii? 0 digits with
  | some cause => .error (.notAscii cause)
  | none => (Base58.decode digits).mapError .notDigit

/-- The bytes of a key text. -/
def decode (t : Text) : Except Fault Bytes :=
  if !isTagged t then .error (.untagged (.text t))
  else if Text.trim (payload t) ≠ payload t then .error (.surroundingBlanks t)
  else decodePayload (payload t)

end KeyText

namespace Json

/-- The text of a value that is a tagged key text. -/
def tagged? : Json → Option Text
  | text t => if KeyText.isTagged t then some t else none
  | _ => none

/-- The bytes of a value that is a key text. -/
def keyBytes (v : Json) : Except KeyText.Fault Bytes :=
  match v with
  | text t => KeyText.decode t
  | _ => .error (.untagged v)

end Json

end Keybox

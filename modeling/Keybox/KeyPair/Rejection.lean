import Keybox.Json.Unreadable
import Keybox.KeyPair

/-!
# Rejections

Why a stored record is not accepted as a key pair, which kind of error each reason is, and what
the message says. A message may name the place the record came from; it never shows the private
key of a slot.
-/

namespace Keybox

/-- The kinds of errors of a key store. -/
inductive ErrorKind where
  | keystore
  | randomSource
  | validation
  | accountMismatch
  | unsupportedAlgorithm
  | ambiguousPrivateKey
  | keyMismatch
  | malformedKey
  | malformedRecord
deriving DecidableEq, Repr

namespace ErrorKind

/-- All kinds. -/
def all : List ErrorKind :=
  [keystore, randomSource, validation, accountMismatch, unsupportedAlgorithm,
    ambiguousPrivateKey, keyMismatch, malformedKey, malformedRecord]

/-- The kinds of errors about a record that is not valid. -/
def isValidation : ErrorKind → Bool
  | keystore => false
  | randomSource => false
  | _ => true

/-- Whether every error of one kind is also one of another. -/
def isA (k general : ErrorKind) : Bool :=
  k == general || general == keystore || (general == validation && k.isValidation)

/-- A message of a kind with the place it is about: only validation errors name one, and an empty
place counts as none. -/
def describe (k : ErrorKind) (message : Text) (place : Option Text) : Text :=
  match place with
  | some p => if k.isValidation ∧ p ≠ [] then message ++ lit ": " ++ p else message
  | none => message

end ErrorKind

/-- Why a record is rejected. -/
inductive Reason where
  | otherAccount (found : Json) (expected : Text)
  | untaggedPublic (found : Json)
  | bothSlots
  | untaggedPrivate (slot : Slot)
  | badPayload (fault : KeyText.Fault)
  | badPrivate (slot : Slot) (fault : RawKey.Fault)
  | mismatch
  | unreadable (cause : Unreadable)
  | notObject

namespace Reason

/-- The kind of error a reason is. -/
def kind : Reason → ErrorKind
  | otherAccount _ _ => .accountMismatch
  | untaggedPublic _ => .unsupportedAlgorithm
  | bothSlots => .ambiguousPrivateKey
  | untaggedPrivate _ => .unsupportedAlgorithm
  | badPayload _ => .malformedKey
  | badPrivate _ _ => .malformedKey
  | mismatch => .keyMismatch
  | unreadable _ => .malformedRecord
  | notObject => .malformedRecord

/-- What a reason says, apart from the place. -/
def message : Reason → Text
  | otherAccount found expected =>
    lit "keystore: parsed account_id '" ++ found.plain ++
      lit "' does not match with accountID '" ++ expected ++ lit "'"
  | untaggedPublic found =>
    lit "keystore: parsed public_key '" ++ found.plain ++ lit "' is not an Ed25519 key"
  | bothSlots => lit "keystore: private_key and secret_key are defined at the same time"
  | untaggedPrivate slot =>
    lit "keystore: parsed " ++ slot.field ++ lit " is not an Ed25519 key"
  | badPayload fault => lit "keystore: invalid base58 key payload: " ++ fault.message
  | badPrivate slot fault =>
    lit "keystore: parsed " ++ slot.field ++ lit " is malformed: " ++ fault.message
  | mismatch => lit "keystore: public_key does not match private_key"
  | unreadable cause => lit "keystore: invalid JSON: " ++ cause.message
  | notObject => lit "keystore: credentials file is not a JSON object"

/-- Whether a rejection for a reason names the place of the record. The two that compare the
record's account and its public key do not. -/
def namesPlace : Reason → Bool
  | otherAccount _ _ => false
  | untaggedPublic _ => false
  | _ => true

end Reason

/-- A reason with the place of the record, where it names one. -/
structure Rejection where
  reason : Reason
  place : Option Text

namespace Rejection

/-- The rejection of a record from a place. -/
def ofReason (place : Option Text) (r : Reason) : Rejection :=
  ⟨r, if r.namesPlace then place else none⟩

/-- The kind of error a rejection is. -/
def kind (r : Rejection) : ErrorKind :=
  r.reason.kind

/-- The whole message. -/
def message (r : Rejection) : Text :=
  r.kind.describe r.reason.message r.place

end Rejection

end Keybox

import Keybox.KeyPair.Rejection

/-!
# Checking a record

A record from outside becomes a key pair only if its account is the expected one, its public key
carries the tag, exactly one slot is in use and carries the tag, both payloads are Base58, the
private key is a seed and its public key, and the public key is that one. The first check that
fails gives the reason.
-/

namespace Keybox

namespace KeyPair

/-- The expected account, if it is the one a record names. A record without a name has the empty
one. -/
def checkAccount (members : Members) (expected : Text) : Except Reason Text :=
  match (members.find? accountField).getD (.text []) with
  | .text t => if t = expected then .ok t else .error (.otherAccount (.text t) expected)
  | v => .error (.otherAccount v expected)

/-- A key's member, the empty text in place of one that is absent or does not count as
present. -/
def keyValue (members : Members) (name : Text) : Json :=
  ((members.find? name).getD .null).orEmpty

/-- The text of the public key, if it carries the tag. -/
def checkPublic (members : Members) : Except Reason Text :=
  match (keyValue members publicField).tagged? with
  | some t => .ok t
  | none => .error (.untaggedPublic (keyValue members publicField))

/-- The slot in use, if only one is. With neither in use it is the second. -/
def usedSlot (members : Members) : Except Reason Slot :=
  if (keyValue members Slot.privateKey.field).isTruthy then
    if (keyValue members Slot.secretKey.field).isTruthy then .error .bothSlots
    else .ok .privateKey
  else .ok .secretKey

/-- The text of a slot, if it carries the tag. -/
def checkPrivate (members : Members) (slot : Slot) : Except Reason Text :=
  match (keyValue members slot.field).tagged? with
  | some t => .ok t
  | none => .error (.untaggedPrivate slot)

/-- The pair of checked texts and bytes, with the private key's text in the slot it came from. -/
def ofParts (account publicKey : Text) (slot : Slot) (privateText : Text)
    (rawPublic rawPrivate : Bytes) : KeyPair where
  account := account
  publicKey := publicKey
  privateKey := if slot = .privateKey then privateText else []
  secretKey := if slot = .secretKey then privateText else []
  rawPublic := rawPublic
  rawPrivate := rawPrivate

/-- The key pair of a record, or the first reason against it. -/
def check (members : Members) (expected : Text) : Except Reason KeyPair := do
  let account ← checkAccount members expected
  let publicKey ← checkPublic members
  let slot ← usedSlot members
  let privateText ← checkPrivate members slot
  let rawPublic ← (KeyText.decode publicKey).mapError .badPayload
  let rawPrivate ← (KeyText.decode privateText).mapError .badPayload
  let derived ← (RawKey.derivePublic rawPrivate).mapError (.badPrivate slot)
  if rawPublic.length ≠ 32 ∨ rawPublic ≠ derived ∨ rawPrivate.drop 32 ≠ derived then
    .error .mismatch
  else
    .ok (ofParts account publicKey slot privateText rawPublic rawPrivate)

/-- The key pair of a record from a place, or its rejection. -/
def decode (members : Members) (expected : Text) (place : Option Text) :
    Except Rejection KeyPair :=
  (check members expected).mapError (Rejection.ofReason place)

end KeyPair

end Keybox

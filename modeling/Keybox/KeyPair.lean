import Keybox.Json.Writer
import Keybox.KeyText
import Keybox.RawKey

/-!
# Key pairs

The key pair of an account, with both keys as text and as bytes. The private key's text stands in
one of two slots, which stored records use for the same thing.
-/

namespace Keybox

/-- The two names under which a record may hold the private key. -/
inductive Slot where
  | privateKey
  | secretKey
deriving DecidableEq, Repr

/-- The name of a slot's member. -/
def Slot.field : Slot → Text
  | privateKey => lit "private_key"
  | secretKey => lit "secret_key"

/-- The key pair of an account. An empty text marks an empty slot. -/
structure KeyPair where
  account : Text
  publicKey : Text
  privateKey : Text
  secretKey : Text
  rawPublic : Bytes
  rawPrivate : Bytes
deriving DecidableEq

namespace KeyPair

/-- The member that names the account. -/
def accountField : Text :=
  lit "account_id"

/-- The member that holds the public key. -/
def publicField : Text :=
  lit "public_key"

/-- The pair of raw keys, with the private key in the first slot. -/
def ofRaw (account : Text) (rawPublic rawPrivate : Bytes) : KeyPair where
  account := account
  publicKey := KeyText.encode rawPublic
  privateKey := KeyText.encode rawPrivate
  secretKey := []
  rawPublic := rawPublic
  rawPrivate := rawPrivate

/-- The pair of a private key that is taken as it is: its public key is whatever follows the
first 32 bytes. -/
def ofRawPrivate (rawPrivate : Bytes) (account : Text) : KeyPair :=
  ofRaw account (rawPrivate.drop 32) rawPrivate

/-- The pair of a seed. -/
def ofSeed (seed : Seed) (account : Text) : KeyPair :=
  ofRaw account seed.publicKey seed.privateKey

/-- What a slot holds. -/
def slot (p : KeyPair) : Slot → Text
  | .privateKey => p.privateKey
  | .secretKey => p.secretKey

/-- The members of a slot: none when it is empty. -/
def slotMembers (p : KeyPair) (s : Slot) : Record :=
  if p.slot s = [] then [] else [(s.field, p.slot s)]

/-- The record of a pair. -/
def record (p : KeyPair) : Record :=
  [(accountField, p.account), (publicField, p.publicKey)] ++
    p.slotMembers .privateKey ++ p.slotMembers .secretKey

/-- The JSON text of a pair. -/
def json (p : KeyPair) : Text :=
  p.record.write

/-- Two pairs agree when they have the same account and the same raw keys, in whichever slot. -/
def agrees (p q : KeyPair) : Bool :=
  p.account == q.account && p.rawPublic == q.rawPublic && p.rawPrivate == q.rawPrivate

/-- How a pair is shown: without its private key. -/
def shown (p : KeyPair) : Text :=
  lit "Ed25519KeyPair(" ++ p.account ++ lit ": " ++ p.publicKey ++ lit ")"

end KeyPair

end Keybox

import Keybox.Ed25519

/-!
# Raw keys

A private key as bytes is a seed of 32 bytes, or the seed followed by the 32 bytes of its public
key. Only the seed decides; the second half is derived anew.
-/

namespace Keybox

/-- A seed of the right length. -/
structure Seed where
  bytes : Bytes
  length_bytes : bytes.length = 32

namespace Seed

/-- Bytes as a seed, if there are 32. -/
def ofBytes? (bytes : Bytes) : Option Seed :=
  if h : bytes.length = 32 then some ⟨bytes, h⟩ else none

/-- The seed of 32 zero bytes. -/
def zero : Seed :=
  ⟨List.replicate 32 0, by simp⟩

/-- The public key of a seed. -/
def publicKey (s : Seed) : Bytes :=
  Ed25519.publicKey s.bytes

/-- The private key: the seed, then its public key. -/
def privateKey (s : Seed) : Bytes :=
  s.bytes ++ s.publicKey

end Seed

namespace RawKey

/-- Why bytes are no private key. -/
inductive Fault where
  | seedLength
  | privateLength (found : Nat)
deriving DecidableEq, Repr

/-- The message for a fault. -/
def Fault.message : Fault → Text
  | seedLength => lit "An Ed25519 private key is 32 bytes long"
  | privateLength n => lit "Ed25519 private key must be 64 bytes, got " ++ Text.ofNat n

/-- The seed in a private key of either length. -/
def seedOf (key : Bytes) : Except Fault Seed :=
  match Seed.ofBytes? (if key.length = 64 then key.take 32 else key) with
  | some s => .ok s
  | none => .error .seedLength

/-- The public key that belongs to the seed in a private key of 64 bytes. -/
def derivePublic (key : Bytes) : Except Fault Bytes :=
  if key.length ≠ 64 then .error (.privateLength key.length)
  else Seed.publicKey <$> seedOf key

end RawKey

end Keybox

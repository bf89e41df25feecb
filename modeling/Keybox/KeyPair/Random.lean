import Keybox.KeyPair

/-!
# Random key pairs

A new pair takes its seed from a random source. When the source cannot deliver, the failure is
reported as the store's own; a source that is broken in another way fails as it does.
-/

namespace Keybox

/-- What a random source does when it is asked for a seed. -/
inductive RandomSource where
  | seed (seed : Seed)
  | unavailable (cause : Text)
  | broken (cause : Text)

/-- Why there is no new pair. -/
inductive DrawFault where
  | unavailable (cause : Text)
  | broken (cause : Text)
deriving DecidableEq

/-- The message of a fault. -/
def DrawFault.message : DrawFault → Text
  | unavailable cause => lit "keystore: cannot generate Ed25519 key: " ++ cause
  | broken cause => cause

namespace KeyPair

/-- A new pair for an account. -/
def generate (source : RandomSource) (account : Text) : Except DrawFault KeyPair :=
  match source with
  | .seed s => .ok (ofSeed s account)
  | .unavailable cause => .error (.unavailable cause)
  | .broken cause => .error (.broken cause)

end KeyPair

end Keybox

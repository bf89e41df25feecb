import Keybox.Numeral
import Keybox.Sha512

/-!
# Ed25519 public keys

The public key of a seed in the Ed25519 signature scheme: the seed's hash gives a scalar, the
scalar a multiple of the base point, and the point 32 bytes. Field elements are natural numbers
below the prime; points are in extended coordinates.
-/

namespace Keybox

namespace Ed25519

/-- The prime of the field. -/
def prime : Nat :=
  Nat.pow 2 255 - 19

/-- The coefficient of the curve. -/
def curveCoefficient : Nat :=
  37095705934669439343138083508754565189542113879843219016388785533085940283555

/-- The difference of field elements. -/
def sub (x y : Nat) : Nat :=
  (x + prime - y) % prime

/-- A power, by the binary digits of the exponent, of which there are at most so many. -/
def power (x : Nat) : Nat → Nat → Nat
  | 0, _ => 1
  | bits + 1, e =>
    let half := power x bits (e / 2)
    let square := half * half % prime
    if e % 2 = 1 then square * x % prime else square

/-- The inverse of a field element that is not zero. -/
def inverse (x : Nat) : Nat :=
  power x 255 (prime - 2)

/-- A point in extended coordinates: `x / z`, `y / z`, and `t = x * y / z`. -/
structure Point where
  x : Nat
  y : Nat
  z : Nat
  t : Nat
deriving DecidableEq, Repr

/-- The neutral point. -/
def neutral : Point :=
  ⟨0, 1, 1, 0⟩

/-- The base point. -/
def basePoint : Point :=
  let x := 15112221349535400772501151409588531511454012693041857206046113283949847762202
  let y := 46316835694926478169428394003475163141307993866256225615783033603165251855960
  ⟨x, y, 1, x * y % prime⟩

/-- The sum of points. -/
def add (p q : Point) : Point :=
  let a := sub p.y p.x * sub q.y q.x % prime
  let b := (p.y + p.x) * (q.y + q.x) % prime
  let c := p.t * 2 * curveCoefficient * q.t % prime
  let d := p.z * 2 * q.z % prime
  let e := sub b a
  let f := sub d c
  let g := d + c
  let h := b + a
  ⟨e * f % prime, g * h % prime, f * g % prime, e * h % prime⟩

/-- A multiple of a point, by the binary digits of the factor, of which there are at most so
many. -/
def multiple (p : Point) : Nat → Nat → Point
  | 0, _ => neutral
  | bits + 1, n =>
    let half := multiple p bits (n / 2)
    let double := add half half
    if n % 2 = 1 then add double p else double

/-- The 32 bytes of a point: its second coordinate, with the parity of the first on top. -/
def encode (p : Point) : Bytes :=
  let zi := inverse p.z
  let x := p.x * zi % prime
  let y := p.y * zi % prime
  Numeral.littleEndian 32 (y + x % 2 * Nat.pow 2 255)

/-- The scalar of a seed: the low half of its hash with the three lowest bits cleared, the
highest cleared and the second highest set. -/
def scalar (seed : Bytes) : Nat :=
  let n := Numeral.ofLittleEndian ((Sha512.hash seed).take 32)
  n % Nat.pow 2 254 / 8 * 8 + Nat.pow 2 254

/-- The public key of a seed. -/
def publicKey (seed : Bytes) : Bytes :=
  encode (multiple basePoint 255 (scalar seed))

end Ed25519

end Keybox

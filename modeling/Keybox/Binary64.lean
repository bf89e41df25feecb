import Keybox.Text

/-!
# Binary floating-point numbers

The values of the binary format with a 53-bit significand, as a sign, a natural mantissa and a
power of two. A decimal is rounded to the nearest of them in exact arithmetic, a tie to the even
mantissa.
-/

namespace Keybox

/-- A double. A finite one stands for `mantissa * 2 ^ exponent`, with its sign. -/
inductive Binary64 where
  | nan
  | infinite (negative : Bool)
  | finite (negative : Bool) (mantissa : Nat) (exponent : Int)
deriving DecidableEq, Repr

namespace Binary64

/-- The lowest exponent, which zero and the subnormal values have. -/
def lowestExponent : Int :=
  -1074

/-- The highest exponent of a finite value. -/
def highestExponent : Int :=
  971

/-- Zero with a sign. -/
def zero (negative : Bool) : Binary64 :=
  .finite negative 0 lowestExponent

/-- Either zero. -/
def isZero : Binary64 → Bool
  | .finite _ m _ => m == 0
  | _ => false

/-- The nearest natural number to a quotient, a tie to the even one. -/
def nearestQuotient (num den : Nat) : Nat :=
  let q := num / den
  let r := num % den
  if 2 * r > den ∨ (2 * r = den ∧ q % 2 = 1) then q + 1 else q

/-- A ratio divided by a power of two, as a ratio. -/
def scaleDown (num den : Nat) (exponent : Int) : Nat × Nat :=
  if 0 ≤ exponent then (num, den * Nat.pow 2 exponent.toNat)
  else (num * Nat.pow 2 (-exponent).toNat, den)

/-- The exponent that leaves a positive ratio a mantissa of 53 bits, unless it is too low. -/
def exponentFor (num den : Nat) : Int :=
  let low := (num.log2 : Int) - (den.log2 : Int) - 53
  let r := scaleDown num den low
  max (if Nat.pow 2 53 ≤ r.1 / r.2 then low + 1 else low) lowestExponent

/-- The double nearest to a positive ratio. -/
def ofRatio (negative : Bool) (num den : Nat) : Binary64 :=
  let e := exponentFor num den
  let r := scaleDown num den e
  let m := nearestQuotient r.1 r.2
  let rounded := if m = Nat.pow 2 53 then (Nat.pow 2 52, e + 1) else (m, e)
  if rounded.2 > highestExponent then .infinite negative
  else .finite negative rounded.1 rounded.2

/-- The double nearest to `significand * 10 ^ exponent`. A magnitude far outside the range is
decided by its number of digits alone. -/
def ofDecimal (negative : Bool) (significand : Nat) (exponent : Int) : Binary64 :=
  if significand = 0 then zero negative
  else
    let magnitude := (Nat.toDigits 10 significand).length + exponent
    if magnitude > 400 then .infinite negative
    else if magnitude < -400 then zero negative
    else if 0 ≤ exponent then ofRatio negative (significand * Nat.pow 10 exponent.toNat) 1
    else ofRatio negative significand (Nat.pow 10 (-exponent).toNat)

end Binary64

end Keybox

import Keybox.Binary64

/-!
# Shortest decimals

The decimal with the fewest digits that rounds to a given double, and of those the nearest to it.
The candidates with a given number of digits are the two neighbours of the value on the decimal
grid of that many digits; all comparisons are exact.

The text form is positional for decimal exponents from -4 to 15 and always has a point there;
elsewhere it has an exponent of at least two digits.
-/

namespace Keybox

namespace Binary64

/-- A decimal: `significand * 10 ^ exponent`. -/
structure Decimal where
  significand : Nat
  exponent : Int
deriving DecidableEq, Repr

/-- A positive double and the ends of the interval of reals that round to it, as numerators over
one denominator. The ends belong to the interval when the mantissa is even. -/
structure Interval where
  value : Nat
  low : Nat
  high : Nat
  den : Nat
  closed : Bool
deriving DecidableEq, Repr

/-- The interval of a positive mantissa and an exponent. The gap below a power of two is half the
gap above it, except at the lowest exponent. -/
def interval (mantissa : Nat) (exponent : Int) : Interval :=
  let below := if mantissa = Nat.pow 2 52 ∧ exponent > lowestExponent then 1 else 2
  let scale := Nat.pow 2 (exponent - 2).toNat
  ⟨4 * mantissa * scale, (4 * mantissa - below) * scale, (4 * mantissa + 2) * scale,
    Nat.pow 2 (2 - exponent).toNat, mantissa % 2 == 0⟩

/-- How many places a ratio below one has to move to reach one, within a bound. -/
def placesBelow (num den : Nat) : Nat → Nat
  | 0 => 0
  | bound + 1 => if den ≤ num then 0 else placesBelow (num * 10) den bound + 1

/-- The power of ten at or below a positive ratio. -/
def decimalExponent (num den : Nat) : Int :=
  if den ≤ num then ((Nat.toDigits 10 (num / den)).length : Int) - 1
  else -(placesBelow num den 400 : Int)

/-- Whether a decimal lies in an interval. -/
def Interval.holds (i : Interval) (d : Decimal) : Bool :=
  let point := d.significand * Nat.pow 10 d.exponent.toNat * i.den
  let low := i.low * Nat.pow 10 (-d.exponent).toNat
  let high := i.high * Nat.pow 10 (-d.exponent).toNat
  if i.closed then decide (low ≤ point ∧ point ≤ high) else decide (low < point ∧ point < high)

/-- The nearer in the interval of the value's two neighbours on a decimal grid, a tie to the even
one. -/
def Interval.onGrid? (i : Interval) (exponent : Int) : Option Decimal :=
  let num := i.value * Nat.pow 10 (-exponent).toNat
  let unit := i.den * Nat.pow 10 exponent.toNat
  let below : Decimal := ⟨num / unit, exponent⟩
  let above : Decimal := ⟨num / unit + 1, exponent⟩
  let nearest : Decimal := ⟨nearestQuotient num unit, exponent⟩
  if i.holds nearest then some nearest
  else if i.holds below then some below
  else if i.holds above then some above
  else none

/-- The first hit on grids of more and more digits. -/
def Interval.search (i : Interval) (top : Int) : Nat → Nat → Decimal
  | 0, _ => ⟨0, 0⟩
  | tries + 1, count =>
    match i.onGrid? (top - count + 1) with
    | some d => d
    | none => i.search top tries (count + 1)

/-- The shortest decimal of a positive mantissa and an exponent. -/
def shortest (mantissa : Nat) (exponent : Int) : Decimal :=
  let i := interval mantissa exponent
  i.search (decimalExponent i.value i.den) 17 1

/-- The digits of a decimal without trailing zeros, and the place of its point after the first
digit. -/
def Decimal.layout (d : Decimal) : Text × Int :=
  let ds := Text.ofNat d.significand
  (Text.dropEndWhile (· = chr '0') ds, ds.length + d.exponent)

/-- Digits with the point at a place between them, or outside with zeros in between. -/
def positional (ds : Text) (point : Int) : Text :=
  if point ≤ 0 then
    lit "0." ++ List.replicate (-point).toNat (chr '0') ++ ds
  else if point < ds.length then
    ds.take point.toNat ++ lit "." ++ ds.drop point.toNat
  else
    ds ++ List.replicate (point.toNat - ds.length) (chr '0') ++ lit ".0"

/-- Digits with the point after the first, and an exponent. -/
def scientific (ds : Text) (point : Int) : Text :=
  let e := point - 1
  let places := Text.ofNat e.natAbs
  ds.take 1 ++ (if ds.length = 1 then [] else lit "." ++ ds.drop 1) ++
    (if e < 0 then lit "e-" else lit "e+") ++
    (if places.length < 2 then chr '0' :: places else places)

/-- The text form of a double. -/
def text : Binary64 → Text
  | .nan => lit "nan"
  | .infinite negative => if negative then lit "-inf" else lit "inf"
  | .finite negative m e =>
    (if negative then lit "-" else []) ++
      (if m = 0 then lit "0.0"
      else
        let l := (shortest m e).layout
        if -4 < l.2 ∧ l.2 ≤ 16 then positional l.1 l.2 else scientific l.1 l.2)

end Binary64

end Keybox

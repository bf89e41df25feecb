/-!
# Numerals

Digits of natural numbers in any base of at least two, most significant digit first, and the
number that digits stand for. Zero has no digits, so a numeral never begins with the digit zero.
-/

namespace Keybox

namespace Numeral

/-- The digits of a number in front of digits that are already known. -/
def digitsOnto (base : Nat) (base_gt : 1 < base) (n : Nat) (tail : List Nat) : List Nat :=
  if n = 0 then tail
  else digitsOnto base base_gt (n / base) (n % base :: tail)
termination_by n
decreasing_by
  rename_i h
  exact Nat.div_lt_self (Nat.pos_of_ne_zero h) base_gt

/-- The digits of a number. -/
def digits (base : Nat) (base_gt : 1 < base) (n : Nat) : List Nat :=
  digitsOnto base base_gt n []

/-- The number that digits stand for. -/
def value (base : Nat) (ds : List Nat) : Nat :=
  ds.foldl (fun n d => n * base + d) 0

/-- The little-endian bytes of a number, as many as asked for. -/
def littleEndian : Nat → Nat → List UInt8
  | 0, _ => []
  | width + 1, n => UInt8.ofNat (n % 256) :: littleEndian width (n / 256)

/-- The number that little-endian bytes stand for. -/
def ofLittleEndian : List UInt8 → Nat
  | [] => 0
  | b :: rest => b.toNat + 256 * ofLittleEndian rest

end Numeral

end Keybox

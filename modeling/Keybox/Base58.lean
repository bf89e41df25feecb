import Keybox.Numeral
import Keybox.Text

/-!
# Base58

Bytes as a big-endian number, and the number in the fifty-eight digits that exclude the look-alike
characters 0, O, I and l. A leading zero byte has no digit in the number, so each is written as
the digit for zero.
-/

namespace Keybox

namespace Base58

/-- The digits in the order of their values. -/
def alphabet : List Char :=
  ['1', '2', '3', '4', '5', '6', '7', '8', '9',
    'A', 'B', 'C', 'D', 'E', 'F', 'G', 'H', 'J', 'K', 'L', 'M', 'N', 'P', 'Q', 'R', 'S', 'T',
    'U', 'V', 'W', 'X', 'Y', 'Z',
    'a', 'b', 'c', 'd', 'e', 'f', 'g', 'h', 'i', 'j', 'k', 'm', 'n', 'o', 'p', 'q', 'r', 's',
    't', 'u', 'v', 'w', 'x', 'y', 'z']

/-- The digit for zero. -/
def zeroDigit : CodePoint :=
  chr '1'

/-- The digit of a value below 58. -/
def digit (n : Nat) : CodePoint :=
  chr (alphabet.getD n '1')

/-- The value of a digit. -/
def valueOf? (c : CodePoint) : Option Nat :=
  alphabet.findIdx? fun d => chr d = c

/-- The digits of a byte string. -/
def encode (bytes : Bytes) : Text :=
  List.replicate (bytes.takeWhile (· = 0)).length zeroDigit ++
    (Numeral.digits 58 (by decide)
      (Numeral.value 256 ((bytes.dropWhile (· = 0)).map UInt8.toNat))).map digit

/-- The values of all digits, or the first code point that is none. -/
def values : Text → Except CodePoint (List Nat)
  | [] => .ok []
  | c :: rest =>
    match valueOf? c with
    | none => .error c
    | some n => (n :: ·) <$> values rest

/-- The byte string of digits, or the first code point that is no digit. -/
def decode (t : Text) : Except CodePoint Bytes :=
  match values (t.dropWhile (· = zeroDigit)) with
  | .error c => .error c
  | .ok ns =>
    .ok (List.replicate (t.takeWhile (· = zeroDigit)).length 0 ++
      (Numeral.digits 256 (by decide) (Numeral.value 58 ns)).map UInt8.ofNat)

end Base58

end Keybox

/-!
# Text

Text is a list of code points. A code point is any value of the Unicode code space, so a
surrogate that stands alone is text like any other; JSON escapes can produce one, and a type of
scalar values could not hold it.
-/

namespace Keybox

/-- A value of the Unicode code space, surrogates included. -/
abbrev CodePoint := Fin 0x110000

instance neZero_codeSpace : @NeZero Nat Zero.ofOfNat0 0x110000 :=
  ⟨by decide⟩

instance lawfulBEq_codePoint : LawfulBEq CodePoint :=
  inferInstance

/-- A sequence of code points. -/
abbrev Text := List CodePoint

/-- A sequence of bytes. -/
abbrev Bytes := List UInt8

namespace CodePoint

/-- The code point of a character. -/
def ofChar (c : Char) : CodePoint :=
  ⟨c.toNat, by
    have h := c.valid
    simp only [UInt32.isValidChar, Nat.isValidChar] at h
    simp only [Char.toNat]
    omega⟩

/-- The first half of a surrogate pair. -/
def isHighSurrogate (c : CodePoint) : Bool :=
  decide (0xD800 ≤ c.val ∧ c.val < 0xDC00)

/-- The second half of a surrogate pair. -/
def isLowSurrogate (c : CodePoint) : Bool :=
  decide (0xDC00 ≤ c.val ∧ c.val < 0xE000)

/-- Either half of a surrogate pair. -/
def isSurrogate (c : CodePoint) : Bool :=
  decide (0xD800 ≤ c.val ∧ c.val < 0xE000)

/-- A code point of the ASCII range. -/
def isAscii (c : CodePoint) : Bool :=
  decide (c.val < 0x80)

/-- An ASCII digit. -/
def isDigit (c : CodePoint) : Bool :=
  decide (0x30 ≤ c.val ∧ c.val ≤ 0x39)

/-- The digit's value; meaningful for ASCII digits. -/
def digitValue (c : CodePoint) : Nat :=
  c.val - 0x30

/-- The value of a hexadecimal digit of either case. -/
def hexValue? (c : CodePoint) : Option Nat :=
  if 0x30 ≤ c.val ∧ c.val ≤ 0x39 then some (c.val - 0x30)
  else if 0x41 ≤ c.val ∧ c.val ≤ 0x46 then some (c.val - 0x37)
  else if 0x61 ≤ c.val ∧ c.val ≤ 0x66 then some (c.val - 0x57)
  else none

/-- The lowercase hexadecimal digit of a value below sixteen. -/
def hexDigit (n : Nat) : CodePoint :=
  if n % 16 < 10 then Fin.ofNat _ (0x30 + n % 16) else Fin.ofNat _ (0x57 + n % 16)

end CodePoint

/-- The text of a literal. -/
def lit (s : String) : Text :=
  s.toList.map CodePoint.ofChar

/-- The code point of a literal character. -/
def chr (c : Char) : CodePoint :=
  CodePoint.ofChar c

namespace Text

/-- The decimal numeral of a natural number. -/
def ofNat (n : Nat) : Text :=
  (Nat.toDigits 10 n).map CodePoint.ofChar

/-- The decimal numeral of an integer, with a sign when it is negative. -/
def ofInt (n : Int) : Text :=
  if n < 0 then chr '-' :: ofNat n.natAbs else ofNat n.natAbs

/-- Lowercase hexadecimal of the given number of digits, the low ones of the value. -/
def hex : Nat → Nat → Text
  | 0, _ => []
  | width + 1, n => hex width (n / 16) ++ [CodePoint.hexDigit n]

/-- Whether a text begins with a tag. -/
def beginsWith (tag t : Text) : Bool :=
  tag.isPrefixOf t

/-- The items written one after another with a separator between them. -/
def join (separator : Text) : List Text → Text
  | [] => []
  | [t] => t
  | t :: rest => t ++ separator ++ join separator rest

/-- The pieces between the occurrences of a separator, empty pieces included. -/
def split (separator : CodePoint) : Text → List Text
  | [] => [[]]
  | c :: rest =>
    if c = separator then [] :: split separator rest
    else
      match split separator rest with
      | [] => [[c]]
      | piece :: pieces => (c :: piece) :: pieces

/-- The text without the trailing code points of a class. -/
def dropEndWhile (p : CodePoint → Bool) (t : Text) : Text :=
  (t.reverse.dropWhile p).reverse

end Text

end Keybox

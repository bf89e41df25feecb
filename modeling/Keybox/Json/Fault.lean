import Keybox.Text

/-!
# Faults of a JSON document

What makes a text no readable document, and where. A message gives the place by line and column,
both counted from one, and by its offset in code points; lines end at a line feed.
-/

namespace Keybox

namespace Json

/-- What the reader found missing or wrong at a place. -/
inductive Issue where
  | expectingValue
  | extraData
  | unterminatedString
  | expectingName
  | expectingComma
  | expectingColon
  | controlCharacter
  | badEscape
  | badUnicodeEscape
  | byteOrderMark
deriving DecidableEq, Repr

/-- The two kinds of brackets. -/
inductive Bracket where
  | array
  | object
deriving DecidableEq, Repr

/-- Why a document cannot be read: its grammar fails at an offset, it nests too deep, or it holds
an integer with too many digits. -/
inductive Fault where
  | malformed (issue : Issue) (offset : Nat)
  | tooDeep (bracket : Bracket)
  | tooLong (digits : Nat)
deriving DecidableEq, Repr

namespace Issue

/-- The words for an issue. -/
def message : Issue → Text
  | .expectingValue => lit "Expecting value"
  | .extraData => lit "Extra data"
  | .unterminatedString => lit "Unterminated string starting at"
  | .expectingName => lit "Expecting property name enclosed in double quotes"
  | .expectingComma => lit "Expecting ',' delimiter"
  | .expectingColon => lit "Expecting ':' delimiter"
  | .controlCharacter => lit "Invalid control character at"
  | .badEscape => lit "Invalid \\escape"
  | .badUnicodeEscape => lit "Invalid \\uXXXX escape"
  | .byteOrderMark => lit "Unexpected UTF-8 BOM (decode using utf-8-sig)"

end Issue

/-- The line of an offset, counted from one. -/
def lineAt (document : Text) (offset : Nat) : Nat :=
  (document.take offset).count (chr '\n') + 1

/-- The column of an offset, counted from one. -/
def columnAt (document : Text) (offset : Nat) : Nat :=
  ((document.take offset).reverse.takeWhile fun c => c != chr '\n').length + 1

namespace Fault

/-- The message for a fault of a document. -/
def message (document : Text) : Fault → Text
  | .malformed issue offset =>
    issue.message ++ lit ": line " ++ Text.ofNat (lineAt document offset) ++
      lit " column " ++ Text.ofNat (columnAt document offset) ++
      lit " (char " ++ Text.ofNat offset ++ lit ")"
  | .tooDeep .array =>
    lit "maximum recursion depth exceeded while decoding a JSON array from a unicode string"
  | .tooDeep .object =>
    lit "maximum recursion depth exceeded while decoding a JSON object from a unicode string"
  | .tooLong digits =>
    lit "Exceeds the limit (4300 digits) for integer string conversion: value has " ++
      Text.ofNat digits ++ lit " digits; use sys.set_int_max_str_digits() to increase the limit"

end Fault

end Json

end Keybox

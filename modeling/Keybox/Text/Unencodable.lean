import Keybox.Text.Quoted

/-!
# Text that has no encoded form

Key payloads are ASCII, and file names are UTF-8 in which a lone surrogate of the range DC80 to
DCFF stands for a byte that is no UTF-8. A text outside its encoding is refused with the first
run of code points at fault.
-/

namespace Keybox

/-- The encodings a text may have to fit. -/
inductive Encoding where
  | ascii
  | fileName
deriving DecidableEq, Repr

/-- The first run of code points that an encoding does not have, by its two ends. -/
structure Unencodable where
  encoding : Encoding
  first : CodePoint
  start : Nat
  stop : Nat
deriving DecidableEq, Repr

namespace Unencodable

/-- What the encoding is called in a message. -/
def codecName (f : Unencodable) : Text :=
  match f.encoding with
  | .ascii => lit "ascii"
  | .fileName => lit "utf-8"

/-- Why the code points are refused. -/
def reason (f : Unencodable) : Text :=
  match f.encoding with
  | .ascii => lit "ordinal not in range(128)"
  | .fileName => lit "surrogates not allowed"

/-- One code point is shown, a longer run only by its positions. -/
def message (f : Unencodable) : Text :=
  lit "'" ++ f.codecName ++ lit "' codec can't encode " ++
    (if f.stop = f.start + 1 then
      lit "character '" ++ f.first.escaped ++ lit "' in position " ++ Text.ofNat f.start
    else
      lit "characters in position " ++ Text.ofNat f.start ++ lit "-" ++ Text.ofNat (f.stop - 1)) ++
    lit ": " ++ f.reason

end Unencodable

namespace Text

/-- The first run of code points outside ASCII, counted from a position. -/
def notAscii? : Nat → Text → Option Unencodable
  | _, [] => none
  | position, c :: rest =>
    if c.isAscii then notAscii? (position + 1) rest
    else
      some ⟨.ascii, c, position,
        position + 1 + (rest.takeWhile fun d => !d.isAscii).length⟩

/-- A lone surrogate that stands for a byte in a file name. -/
def isByteSurrogate (c : CodePoint) : Bool :=
  decide (0xDC80 ≤ c.val ∧ c.val ≤ 0xDCFF)

/-- The first surrogate that no byte stands behind, with the surrogates that follow it. -/
def notFileName? : Nat → Text → Option Unencodable
  | _, [] => none
  | position, c :: rest =>
    if c.isSurrogate && !isByteSurrogate c then
      some ⟨.fileName, c, position,
        position + 1 + (rest.takeWhile fun d => d.isSurrogate).length⟩
    else notFileName? (position + 1) rest

end Text

end Keybox

import Keybox.Text

/-!
# Blank characters

The code points that count as white space around a text, and the text without those at its ends.
-/

namespace Keybox

namespace CodePoint

/-- White space: the ASCII blanks and separators, the next-line control, and the Unicode spaces. -/
def isBlank (c : CodePoint) : Bool :=
  decide (
    (0x09 ≤ c.val ∧ c.val ≤ 0x0D) ∨ (0x1C ≤ c.val ∧ c.val ≤ 0x20) ∨
    c.val = 0x85 ∨ c.val = 0xA0 ∨ c.val = 0x1680 ∨
    (0x2000 ≤ c.val ∧ c.val ≤ 0x200A) ∨ c.val = 0x2028 ∨ c.val = 0x2029 ∨
    c.val = 0x202F ∨ c.val = 0x205F ∨ c.val = 0x3000)

end CodePoint

namespace Text

/-- The text without the blanks at its two ends. -/
def trim (t : Text) : Text :=
  dropEndWhile CodePoint.isBlank (t.dropWhile CodePoint.isBlank)

end Text

end Keybox

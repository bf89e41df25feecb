import Keybox.Text.Printable

/-!
# Quoted text

The form in which messages show a text between quotes. Single quotes are used unless the text
holds a single quote and no double quote. The backslash and the chosen quote are escaped, three
controls have short escapes, and what is not printable is written by its number.
-/

namespace Keybox

namespace CodePoint

/-- A code point by its number: two, four or eight hexadecimal digits, whichever fits first. -/
def escaped (c : CodePoint) : Text :=
  if c.val ≤ 0xFF then lit "\\x" ++ Text.hex 2 c.val
  else if c.val ≤ 0xFFFF then lit "\\u" ++ Text.hex 4 c.val
  else lit "\\U" ++ Text.hex 8 c.val

/-- A code point as it stands between two given quotes. -/
def quotedWith (quote c : CodePoint) : Text :=
  if c = quote ∨ c = chr '\\' then [chr '\\', c]
  else if c = chr '\n' then lit "\\n"
  else if c = chr '\r' then lit "\\r"
  else if c = chr '\t' then lit "\\t"
  else if c.isPrintable then [c]
  else escaped c

end CodePoint

namespace Text

/-- The quote a text is shown in. -/
def quoteFor (t : Text) : CodePoint :=
  if chr '\'' ∈ t ∧ chr '"' ∉ t then chr '"' else chr '\''

/-- The text between quotes. -/
def quoted (t : Text) : Text :=
  quoteFor t :: t.flatMap (CodePoint.quotedWith (quoteFor t)) ++ [quoteFor t]

end Text

end Keybox

import Keybox.Text

/-!
# Writing JSON

The text of a record, an object all of whose members are strings. The result is ASCII: what is
not printable ASCII is written as an escape, short where there is a short one, else by its UTF-16
units in lowercase hexadecimal.
-/

namespace Keybox

/-- Named texts in their order. -/
abbrev Record := List (Text × Text)

namespace Record

/-- The escape of one UTF-16 unit. -/
def unitEscape (n : Nat) : Text :=
  lit "\\u" ++ Text.hex 4 n

/-- A code point as it stands in a string. -/
def writePoint (c : CodePoint) : Text :=
  if c = chr '"' then lit "\\\""
  else if c = chr '\\' then lit "\\\\"
  else if c.val = 0x08 then lit "\\b"
  else if c.val = 0x09 then lit "\\t"
  else if c.val = 0x0A then lit "\\n"
  else if c.val = 0x0C then lit "\\f"
  else if c.val = 0x0D then lit "\\r"
  else if 0x20 ≤ c.val ∧ c.val < 0x7F then [c]
  else if c.val < 0x10000 then unitEscape c.val
  else
    unitEscape (0xD800 + (c.val - 0x10000) / 0x400) ++
      unitEscape (0xDC00 + (c.val - 0x10000) % 0x400)

/-- A string in its quotes. -/
def writeText (t : Text) : Text :=
  chr '"' :: t.flatMap writePoint ++ [chr '"']

/-- A member: its name, a colon and its value. -/
def writeMember (m : Text × Text) : Text :=
  writeText m.1 ++ lit ": " ++ writeText m.2

/-- The text of a record. -/
def write (r : Record) : Text :=
  lit "\x7b" ++ Text.join (lit ", ") (r.map writeMember) ++ lit "\x7d"

end Record

end Keybox

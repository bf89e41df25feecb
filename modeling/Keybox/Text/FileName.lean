import Keybox.Text.Unencodable
import Keybox.Text.Utf8

/-!
# File names

A file system knows names as bytes. A text stands for the bytes of its UTF-8, and a byte that is
no part of a well-formed sequence is the surrogate of the range DC80 to DCFF that stands for it.
So two texts can name one file: `settled` gives the one that reading the name gives back.
-/

namespace Keybox

namespace FileName

/-- The bytes that a code point stands for in a file name. -/
def pointBytes (c : CodePoint) : Bytes :=
  if Text.isByteSurrogate c then [Utf8.byte (c.val - 0xDC00)] else Utf8.encodePoint c

/-- The bytes that a text stands for as a file name. -/
def bytes (t : Text) : Bytes :=
  t.flatMap pointBytes

/-- The surrogate that stands for a byte. -/
def byteSurrogate (b : UInt8) : CodePoint :=
  Fin.ofNat _ (0xDC00 + b.toNat)

/-- The text of a name's bytes, the first few left out because a code point before covers them. -/
def ofBytesAfter : Nat → Bytes → Text
  | _, [] => []
  | covered + 1, _ :: rest => ofBytesAfter covered rest
  | 0, b :: rest =>
    match Utf8.point? b rest with
    | some (c, covered) => c :: ofBytesAfter covered rest
    | none => byteSurrogate b :: ofBytesAfter 0 rest

/-- The text of a name's bytes. -/
def ofBytes (name : Bytes) : Text :=
  ofBytesAfter 0 name

/-- The text of the name that a text stands for. -/
def settled (t : Text) : Text :=
  ofBytes (bytes t)

/-- The bytes a text takes in a file name. -/
def length (t : Text) : Nat :=
  (bytes t).length

end FileName

end Keybox

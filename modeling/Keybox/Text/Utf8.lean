import Keybox.Text

/-!
# UTF-8

The bytes of a text and the text of bytes. Reading is strict: no overlong form, no surrogate, no
value above the code space. A fault names the longest run of bytes that begins a well-formed
sequence without completing it, or the one byte that begins none.
-/

namespace Keybox

namespace Utf8

/-- The byte of a value below 256. -/
def byte (n : Nat) : UInt8 :=
  UInt8.ofNat n

/-- The bytes of one code point. Surrogates take the three bytes of their range. -/
def encodePoint (c : CodePoint) : Bytes :=
  if c.val < 0x80 then [byte c.val]
  else if c.val < 0x800 then [byte (0xC0 + c.val / 0x40), byte (0x80 + c.val % 0x40)]
  else if c.val < 0x10000 then
    [byte (0xE0 + c.val / 0x1000), byte (0x80 + c.val / 0x40 % 0x40), byte (0x80 + c.val % 0x40)]
  else
    [byte (0xF0 + c.val / 0x40000), byte (0x80 + c.val / 0x1000 % 0x40),
      byte (0x80 + c.val / 0x40 % 0x40), byte (0x80 + c.val % 0x40)]

/-- The bytes of a text. -/
def encode (t : Text) : Bytes :=
  t.flatMap encodePoint

/-- What is wrong with a run of bytes. -/
inductive Reason where
  | start
  | continuation
  | truncated
deriving DecidableEq, Repr

/-- The first run of bytes that is no text, by its first byte and its two ends. -/
structure Fault where
  first : UInt8
  start : Nat
  stop : Nat
  reason : Reason
deriving DecidableEq, Repr

/-- The kinds of bytes a sequence can begin with. -/
inductive Lead where
  | one
  | two
  | three
  | four
  | none
deriving DecidableEq, Repr

/-- The kind of a first byte. -/
def lead (b : UInt8) : Lead :=
  if b.toNat < 0x80 then .one
  else if b.toNat < 0xC2 then .none
  else if b.toNat < 0xE0 then .two
  else if b.toNat < 0xF0 then .three
  else if b.toNat < 0xF5 then .four
  else .none

/-- A byte that continues a sequence. -/
def continues (b : UInt8) : Bool :=
  decide (0x80 ≤ b.toNat ∧ b.toNat < 0xC0)

/-- A byte that may stand second after a given first byte: this rules out overlong forms,
surrogates and values above the code space. -/
def seconds (b c : UInt8) : Bool :=
  continues c &&
    (if b = 0xE0 then decide (0xA0 ≤ c.toNat)
    else if b = 0xED then decide (c.toNat < 0xA0)
    else if b = 0xF0 then decide (0x90 ≤ c.toNat)
    else if b = 0xF4 then decide (c.toNat < 0x90)
    else true)

/-- The code point of two bytes. -/
def point2 (b c : UInt8) : CodePoint :=
  Fin.ofNat _ (b.toNat % 0x20 * 0x40 + c.toNat % 0x40)

/-- The code point of three bytes. -/
def point3 (b c d : UInt8) : CodePoint :=
  Fin.ofNat _ (b.toNat % 0x10 * 0x1000 + c.toNat % 0x40 * 0x40 + d.toNat % 0x40)

/-- The code point of four bytes. -/
def point4 (b c d e : UInt8) : CodePoint :=
  Fin.ofNat _ (b.toNat % 0x08 * 0x40000 + c.toNat % 0x40 * 0x1000 + d.toNat % 0x40 * 0x40 +
    e.toNat % 0x40)

/-- The code point whose well-formed sequence begins with a byte, and how many of the bytes after
it belong to the sequence. -/
def point? (b : UInt8) (rest : Bytes) : Option (CodePoint × Nat) :=
  match lead b, rest with
  | .one, _ => some (Fin.ofNat _ b.toNat, 0)
  | .two, c :: _ => if seconds b c then some (point2 b c, 1) else none
  | .three, c :: d :: _ =>
    if seconds b c && continues d then some (point3 b c d, 2) else none
  | .four, c :: d :: e :: _ =>
    if seconds b c && continues d && continues e then some (point4 b c d e, 3) else none
  | _, _ => none

/-- Reads bytes that stand at a position. -/
def decodeAt (position : Nat) : Bytes → Except Fault Text
  | [] => .ok []
  | b :: rest =>
    match lead b with
    | .none => .error ⟨b, position, position + 1, .start⟩
    | .one => (Fin.ofNat _ b.toNat :: ·) <$> decodeAt (position + 1) rest
    | .two =>
      match rest with
      | [] => .error ⟨b, position, position + 1, .truncated⟩
      | c :: rest =>
        if seconds b c then (point2 b c :: ·) <$> decodeAt (position + 2) rest
        else .error ⟨b, position, position + 1, .continuation⟩
    | .three =>
      match rest with
      | [] => .error ⟨b, position, position + 1, .truncated⟩
      | c :: rest =>
        if seconds b c then
          match rest with
          | [] => .error ⟨b, position, position + 2, .truncated⟩
          | d :: rest =>
            if continues d then (point3 b c d :: ·) <$> decodeAt (position + 3) rest
            else .error ⟨b, position, position + 2, .continuation⟩
        else .error ⟨b, position, position + 1, .continuation⟩
    | .four =>
      match rest with
      | [] => .error ⟨b, position, position + 1, .truncated⟩
      | c :: rest =>
        if seconds b c then
          match rest with
          | [] => .error ⟨b, position, position + 2, .truncated⟩
          | d :: rest =>
            if continues d then
              match rest with
              | [] => .error ⟨b, position, position + 3, .truncated⟩
              | e :: rest =>
                if continues e then (point4 b c d e :: ·) <$> decodeAt (position + 4) rest
                else .error ⟨b, position, position + 3, .continuation⟩
            else .error ⟨b, position, position + 2, .continuation⟩
        else .error ⟨b, position, position + 1, .continuation⟩

/-- Reads bytes. -/
def decode (bytes : Bytes) : Except Fault Text :=
  decodeAt 0 bytes

namespace Reason

/-- The words for a reason. -/
def message : Reason → Text
  | .start => lit "invalid start byte"
  | .continuation => lit "invalid continuation byte"
  | .truncated => lit "unexpected end of data"

end Reason

namespace Fault

/-- One byte is shown, a longer run only by its positions. -/
def message (f : Fault) : Text :=
  lit "'utf-8' codec can't decode " ++
    (if f.stop = f.start + 1 then
      lit "byte 0x" ++ Text.hex 2 f.first.toNat ++ lit " in position " ++ Text.ofNat f.start
    else
      lit "bytes in position " ++ Text.ofNat f.start ++ lit "-" ++ Text.ofNat (f.stop - 1)) ++
    lit ": " ++ f.reason.message

end Fault

end Utf8

end Keybox

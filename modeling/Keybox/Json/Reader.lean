import Keybox.Json
import Keybox.Json.Fault

/-!
# Reading JSON

A reader takes a value from the front of the remaining text. The grammar is the standard one with
three more number words, `NaN`, `Infinity` and `-Infinity`; a string may hold any code point but
an ASCII control, a lone surrogate escape stands for itself, and a high surrogate escape joins the
low one right after it.

A nested value is read by a reader that is passed in, one for each level of nesting that is left,
so that the depth is bounded by construction.
-/

namespace Keybox

namespace Json

/-- The rest of a document and its offset from the beginning. -/
structure Cursor where
  offset : Nat
  rest : Text
deriving DecidableEq, Repr

/-- A reader's result: what it read and where it stopped, or why it failed. -/
abbrev Reading (α : Type) := Except Fault (α × Cursor)

/-- The most levels of brackets in brackets. -/
def depthLimit : Nat := 990

/-- The most digits of an integer. -/
def digitLimit : Nat := 4300

/-- The blanks between tokens: space, tab, line feed and carriage return. -/
def isBlank (c : CodePoint) : Bool :=
  c = chr ' ' || c = chr '\t' || c = chr '\n' || c = chr '\r'

/-- The cursor after the blanks at the front of a text that stands at an offset. -/
def skipBlanks (offset : Nat) : Text → Cursor
  | [] => ⟨offset, []⟩
  | c :: rest => if isBlank c then skipBlanks (offset + 1) rest else ⟨offset, c :: rest⟩

/-! ## Strings -/

/-- The value of the four hexadecimal digits at the front of a text, if more text follows them. -/
def fourHex? : Text → Option CodePoint
  | a :: b :: c :: d :: _ :: _ => do
    let a ← a.hexValue?
    let b ← b.hexValue?
    let c ← c.hexValue?
    let d ← d.hexValue?
    return Fin.ofNat _ (a * 0x1000 + b * 0x100 + c * 0x10 + d)
  | _ => none

/-- The low surrogate whose escape stands at the front of a text. -/
def lowHalf? : Text → Option CodePoint
  | b :: u :: rest =>
    if b = chr '\\' ∧ u = chr 'u' then
      match fourHex? rest with
      | some low => if low.isLowSurrogate then some low else none
      | none => none
    else none
  | _ => none

/-- The code point of a surrogate pair. -/
def joinSurrogates (high low : CodePoint) : CodePoint :=
  Fin.ofNat _ (0x10000 + (high.val - 0xD800) * 0x400 + (low.val - 0xDC00))

/-- The code point of a one-letter escape. -/
def shortEscape? (c : CodePoint) : Option CodePoint :=
  if c = chr '"' ∨ c = chr '\\' ∨ c = chr '/' then some c
  else if c = chr 'b' then some 0x08
  else if c = chr 'f' then some 0x0C
  else if c = chr 'n' then some 0x0A
  else if c = chr 'r' then some 0x0D
  else if c = chr 't' then some 0x09
  else none

/-- A string read with one more code point at its front. -/
def prepend (c : CodePoint) (r : Reading Text) : Reading Text :=
  r.map fun p => (c :: p.1, p.2)

/-- Reads a string whose opening quote stands at a given offset, from a later offset on. -/
def readText (opening offset : Nat) : Text → Reading Text
  | [] => .error (.malformed .unterminatedString opening)
  | c :: rest =>
    if c = chr '"' then .ok ([], ⟨offset + 1, rest⟩)
    else if c = chr '\\' then
      match rest with
      | [] => .error (.malformed .unterminatedString opening)
      | e :: rest =>
        if e = chr 'u' then
          match fourHex? rest with
          | none => .error (.malformed .badUnicodeEscape (offset + 1))
          | some d =>
            match if d.isHighSurrogate then lowHalf? (rest.drop 4) else none with
            | some low =>
              prepend (joinSurrogates d low) (readText opening (offset + 12) (rest.drop 10))
            | none => prepend d (readText opening (offset + 6) (rest.drop 4))
        else
          match shortEscape? e with
          | none => .error (.malformed .badEscape offset)
          | some d => prepend d (readText opening (offset + 2) rest)
    else if c.val < 0x20 then .error (.malformed .controlCharacter offset)
    else prepend c (readText opening (offset + 1) rest)
termination_by t => t.length
decreasing_by
  all_goals simp only [List.length_drop, List.length_cons]
  all_goals omega

/-! ## Numbers -/

/-- The digits at the front of a text. -/
def digitRun (t : Text) : Text :=
  t.takeWhile CodePoint.isDigit

/-- The number that digits stand for. -/
def digitsValue (ds : Text) : Nat :=
  ds.foldl (fun n d => n * 10 + d.digitValue) 0

/-- The digits before the point: a zero stands alone. -/
def wholeDigits (t : Text) : Text :=
  match t with
  | [] => []
  | d :: _ => if d = chr '0' then [d] else digitRun t

/-- The digits after a point at the front of a text; none if no digit follows the point. -/
def fractionDigits : Text → Text
  | [] => []
  | c :: rest => if c = chr '.' then digitRun rest else []

/-- An exponent at the front of a text, with the number of code points it takes. -/
def exponentPart? : Text → Option (Int × Nat)
  | [] => none
  | c :: rest =>
    if c = chr 'e' ∨ c = chr 'E' then
      match rest with
      | [] => none
      | s :: more =>
        if s = chr '-' then
          match digitRun more with
          | [] => none
          | ds => some (-(digitsValue ds : Int), ds.length + 2)
        else if s = chr '+' then
          match digitRun more with
          | [] => none
          | ds => some (digitsValue ds, ds.length + 2)
        else
          match digitRun rest with
          | [] => none
          | ds => some (digitsValue ds, ds.length + 1)
    else none

/-- Reads a number without its sign: an integer, or a double when it has a fraction or an
exponent. -/
def readUnsigned (negative : Bool) (start offset : Nat) (t : Text) : Reading Json :=
  let whole := wholeDigits t
  let afterWhole := t.drop whole.length
  let fraction := fractionDigits afterWhole
  let fractionLength := if fraction = [] then 0 else fraction.length + 1
  let afterFraction := afterWhole.drop fractionLength
  if whole = [] then .error (.malformed .expectingValue start)
  else
    match exponentPart? afterFraction with
    | some (e, length) =>
      .ok (.real (Binary64.ofDecimal negative (digitsValue (whole ++ fraction))
          (e - fraction.length)),
        ⟨offset + whole.length + fractionLength + length, afterFraction.drop length⟩)
    | none =>
      if fraction = [] then
        if whole.length > digitLimit then .error (.tooLong whole.length)
        else
          .ok (.int (if negative then -(digitsValue whole : Int) else digitsValue whole),
            ⟨offset + whole.length, afterWhole⟩)
      else
        .ok (.real (Binary64.ofDecimal negative (digitsValue (whole ++ fraction))
            (-(fraction.length : Int))),
          ⟨offset + whole.length + fractionLength, afterFraction⟩)

/-- Reads a number. -/
def readNumber (c : Cursor) : Reading Json :=
  match c.rest with
  | [] => .error (.malformed .expectingValue c.offset)
  | s :: rest =>
    if s = chr '-' then readUnsigned true c.offset (c.offset + 1) rest
    else readUnsigned false c.offset c.offset c.rest

/-! ## Values -/

/-- The values that are written as a word. -/
def words : List (Text × Json) :=
  [(lit "null", .null), (lit "true", .bool true), (lit "false", .bool false),
    (lit "NaN", .real .nan), (lit "Infinity", .real (.infinite false)),
    (lit "-Infinity", .real (.infinite true))]

/-- Reads a value that has no brackets and is no string: a word, else a number. -/
def readBare (c : Cursor) : Reading Json :=
  match words.find? fun w => Text.beginsWith w.1 c.rest with
  | some (word, v) => .ok (v, ⟨c.offset + word.length, c.rest.drop word.length⟩)
  | none => readNumber c

/-- Reads the items of an array that has some, at most as many as the bound says. -/
def readItems (item : Cursor → Reading Json) : Nat → Cursor → Reading (List Json)
  | 0, c => .error (.malformed .expectingValue c.offset)
  | bound + 1, c =>
    match item c with
    | .error f => .error f
    | .ok (v, c) =>
      let c := skipBlanks c.offset c.rest
      match c.rest with
      | [] => .error (.malformed .expectingComma c.offset)
      | d :: rest =>
        if d = chr ']' then .ok ([v], ⟨c.offset + 1, rest⟩)
        else if d = chr ',' then
          (readItems item bound (skipBlanks (c.offset + 1) rest)).map fun p => (v :: p.1, p.2)
        else .error (.malformed .expectingComma c.offset)

/-- Reads the name of a member and the colon after it. -/
def readName (c : Cursor) : Reading Text :=
  match c.rest with
  | [] => .error (.malformed .expectingName c.offset)
  | q :: rest =>
    if q = chr '"' then
      match readText c.offset (c.offset + 1) rest with
      | .error f => .error f
      | .ok (name, c) =>
        let c := skipBlanks c.offset c.rest
        match c.rest with
        | [] => .error (.malformed .expectingColon c.offset)
        | d :: rest =>
          if d = chr ':' then .ok (name, skipBlanks (c.offset + 1) rest)
          else .error (.malformed .expectingColon c.offset)
    else .error (.malformed .expectingName c.offset)

/-- Reads the members of an object that has some, at most as many as the bound says. -/
def readMembers (item : Cursor → Reading Json) : Nat → Cursor → Reading (List (Text × Json))
  | 0, c => .error (.malformed .expectingName c.offset)
  | bound + 1, c =>
    match readName c with
    | .error f => .error f
    | .ok (name, c) =>
      match item c with
      | .error f => .error f
      | .ok (v, c) =>
        let c := skipBlanks c.offset c.rest
        match c.rest with
        | [] => .error (.malformed .expectingComma c.offset)
        | d :: rest =>
          if d = chr '\x7d' then .ok ([(name, v)], ⟨c.offset + 1, rest⟩)
          else if d = chr ',' then
            (readMembers item bound (skipBlanks (c.offset + 1) rest)).map fun p =>
              ((name, v) :: p.1, p.2)
          else .error (.malformed .expectingComma c.offset)

/-- Reads an array after its opening bracket. -/
def readArray (item : Cursor → Reading Json) (offset : Nat) (t : Text) : Reading Json :=
  let c := skipBlanks offset t
  match c.rest with
  | [] => .error (.malformed .expectingValue c.offset)
  | d :: rest =>
    if d = chr ']' then .ok (.array [], ⟨c.offset + 1, rest⟩)
    else (readItems item c.rest.length c).map fun p => (.array p.1, p.2)

/-- Reads an object after its opening bracket. -/
def readObject (item : Cursor → Reading Json) (offset : Nat) (t : Text) : Reading Json :=
  let c := skipBlanks offset t
  match c.rest with
  | [] => .error (.malformed .expectingName c.offset)
  | d :: rest =>
    if d = chr '\x7d' then .ok (.object [], ⟨c.offset + 1, rest⟩)
    else (readMembers item c.rest.length c).map fun p => (.object (Members.ofList p.1), p.2)

/-- Reads a value, with a reader for the values in its brackets if there may be any. -/
def readWith (item? : Option (Cursor → Reading Json)) (c : Cursor) : Reading Json :=
  match c.rest with
  | [] => .error (.malformed .expectingValue c.offset)
  | d :: rest =>
    if d = chr '"' then
      (readText c.offset (c.offset + 1) rest).map fun p => (.text p.1, p.2)
    else if d = chr '[' then
      match item? with
      | none => .error (.tooDeep .array)
      | some item => readArray item (c.offset + 1) rest
    else if d = chr '\x7b' then
      match item? with
      | none => .error (.tooDeep .object)
      | some item => readObject item (c.offset + 1) rest
    else readBare c

/-- Reads a value with at most so many levels of brackets. -/
def readValue : Nat → Cursor → Reading Json
  | 0 => readWith none
  | depth + 1 => readWith (some (readValue depth))

/-- Reads a whole document: one value with blanks around it, and no byte order mark. -/
def read (document : Text) : Except Fault Json :=
  if document.head? = some 0xFEFF then .error (.malformed .byteOrderMark 0)
  else
    match readValue depthLimit (skipBlanks 0 document) with
    | .error f => .error f
    | .ok (v, c) =>
      let c := skipBlanks c.offset c.rest
      if c.rest = [] then .ok v else .error (.malformed .extraData c.offset)

end Json

end Keybox

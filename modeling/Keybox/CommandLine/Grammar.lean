import Keybox.Text.Printable
import Keybox.Text.Quoted

/-!
# Command-line grammar

The words of a command line against a grammar of switches and one positional argument. Every word
is classified first; then switches are taken where they stand, and the positional argument where
its first word stands.

A switch may be shortened as long as it stays unique, and may carry its value after an equals
sign. A separator of two dashes makes all words after it plain. What the grammar has no place for
is kept apart.
-/

namespace Keybox

namespace CommandLine

/-- A switch: its names, and under which name it keeps a value; without one it asks for help. -/
structure Switch where
  names : List Text
  keeps : Option Text
deriving DecidableEq

/-- The positional argument: one word, or a command with all words after it. -/
inductive Positional where
  | word (name : Text)
  | command (name : Text)
deriving DecidableEq

/-- What a command line may hold. -/
structure Grammar where
  switches : List Switch
  positional : Positional
deriving DecidableEq

/-- How a written word names a switch: by its full name, with the value that is attached to it if
there is one. -/
structure Naming where
  written : Text
  switch : Switch
  name : Text
  attached : Option Text
deriving DecidableEq

/-- A classified word. -/
inductive Word where
  | plain (text : Text)
  | separator
  | known (naming : Naming)
  | unknown (text : Text)
deriving DecidableEq

/-- Why reading stops before it is done. -/
inductive Halt where
  | help
  | error (message : Text)
deriving DecidableEq

/-- What was read: the kept values in their order, the words of the positional argument, and the
words there was no place for. -/
structure Reading where
  values : List (Text × Text)
  positional : Option (List Text)
  extras : List Text
deriving DecidableEq

/-- Two dashes. -/
def dashes : Text :=
  lit "--"

/-- The dash. -/
def dash : CodePoint :=
  chr '-'

namespace Positional

/-- The name of a positional argument. -/
def name : Positional → Text
  | word n => n
  | command n => n

end Positional

namespace Switch

/-- The name of a switch in messages. -/
def title (s : Switch) : Text :=
  Text.join (lit "/") s.names

end Switch

/-- The text before the first equals sign, and the text after it if there is one. -/
def splitAtEquals : Text → Text × Option Text
  | [] => ([], none)
  | c :: rest =>
    if c = chr '=' then ([], some rest)
    else
      let parts := splitAtEquals rest
      (c :: parts.1, parts.2)

namespace Grammar

/-- All names of switches with their switches. -/
def names (g : Grammar) : List (Text × Switch) :=
  g.switches.flatMap fun s => s.names.map fun n => (n, s)

/-- The switch of a name. -/
def switch? (g : Grammar) (name : Text) : Option Switch :=
  (g.names.find? fun n => n.1 == name).map Prod.snd

/-- The switches that a word may be short for, or run together with. -/
def candidates (g : Grammar) (t : Text) : List Naming :=
  if Text.beginsWith dashes t then
    let parts := splitAtEquals t
    (g.names.filter fun n => Text.beginsWith parts.1 n.1).map fun n =>
      ⟨t, n.2, n.1, parts.2⟩
  else
    g.names.filterMap fun n =>
      if n.1 = t.take 2 then some ⟨t, n.2, n.1, some (t.drop 2)⟩
      else if Text.beginsWith t n.1 then some ⟨t, n.2, n.1, none⟩
      else none

end Grammar

/-- The digits at the front of a text, of any script, and what follows them. -/
def digitSpan (t : Text) : Text × Text :=
  (t.takeWhile CodePoint.isDecimalDigit, t.dropWhile CodePoint.isDecimalDigit)

/-- Whether nothing is left of a text but at most one line feed. -/
def atEnd (t : Text) : Bool :=
  t = [] || t = [chr '\n']

/-- Whether a word reads as a negative number: digits, or a fraction with or without digits before
the point. -/
def isNegativeNumber : Text → Bool
  | [] => false
  | c :: rest =>
    if c = dash then
      let whole := digitSpan rest
      (!whole.1.isEmpty && atEnd whole.2) ||
        (match whole.2 with
        | [] => false
        | p :: rest =>
          let fraction := digitSpan rest
          p = chr '.' && !fraction.1.isEmpty && atEnd fraction.2)
    else false

namespace Grammar

/-- The class of a word that may still be a switch. -/
def classifyWord (g : Grammar) (t : Text) : Except Halt Word :=
  if t.head? ≠ some dash then .ok (.plain t)
  else
    match g.switch? t with
    | some s => .ok (.known ⟨t, s, t, none⟩)
    | none =>
      if t.length = 1 then .ok (.plain t)
      else
        let parts := splitAtEquals t
        match if parts.2.isSome then g.switch? parts.1 else none with
        | some s => .ok (.known ⟨t, s, parts.1, parts.2⟩)
        | none =>
          match g.candidates t with
          | [naming] => .ok (.known naming)
          | [] =>
            if isNegativeNumber t ∨ chr ' ' ∈ t then .ok (.plain t) else .ok (.unknown t)
          | several =>
            .error (.error (lit "ambiguous option: " ++ t ++ lit " could match " ++
              Text.join (lit ", ") (several.map Naming.name)))

/-- The classes of all words. -/
def classify (g : Grammar) : List Text → Except Halt (List Word)
  | [] => .ok []
  | t :: rest =>
    if t = dashes then .ok (.separator :: rest.map .plain)
    else
      match g.classifyWord t with
      | .error h => .error h
      | .ok w => (w :: ·) <$> g.classify rest

end Grammar

/-- A word as it was written. -/
def Word.text : Word → Text
  | plain t => t
  | separator => dashes
  | known n => n.written
  | unknown t => t

/-- The error about a switch. -/
def switchError (s : Switch) (message : Text) : Halt :=
  .error (lit "argument " ++ s.title ++ lit ": " ++ message)

/-- The error about a value attached to a switch that takes none. -/
def attachedError (s : Switch) (attached : Text) : Halt :=
  switchError s (lit "ignored explicit argument " ++ attached.quoted)

/-- What letters run together with a help switch come to: help if they all ask for it. -/
def helpLetters (g : Grammar) (s : Switch) : Text → Halt
  | [] => .help
  | c :: rest =>
    match g.switch? [dash, c] with
    | some _ => helpLetters g s rest
    | none => attachedError s (c :: rest)

/-- What a help switch comes to. -/
def helpHalt (g : Grammar) (n : Naming) : Halt :=
  match n.attached with
  | none => .help
  | some x =>
    if Text.beginsWith dashes n.name ∨ x = [] then attachedError n.switch x
    else helpLetters g n.switch x

/-- An attached value. Two dashes alone count as an empty one. -/
def attachedValue (x : Text) : Text :=
  if x = dashes then [] else x

namespace Reading

/-- The reading before the first word. -/
def empty : Reading where
  values := []
  positional := none
  extras := []

/-- The reading with a value kept. -/
def keep (r : Reading) (name value : Text) : Reading :=
  { r with values := r.values ++ [(name, value)] }

/-- The reading with a word there was no place for. -/
def leave (r : Reading) (t : Text) : Reading :=
  { r with extras := r.extras ++ [t] }

/-- The last value kept under a name; an empty one counts as none. -/
def value? (r : Reading) (name : Text) : Option Text :=
  match r.values.reverse.find? fun v => v.1 == name with
  | some (_, []) => none
  | some (_, t) => some t
  | none => none

end Reading

namespace Grammar

/-- The end of a reading, at which the positional argument must have been there. -/
def finish (g : Grammar) (r : Reading) : Except Halt Reading :=
  if r.positional.isSome then .ok r
  else .error (.error (lit "the following arguments are required: " ++ g.positional.name))

/-- Takes the words one after another. Right after the positional word a separator has no effect
of its own, and neither has one right before it. -/
def consume (g : Grammar) (afterWord : Bool) (r : Reading) : List Word → Except Halt Reading
  | [] => g.finish r
  | .unknown t :: rest => g.consume false (r.leave t) rest
  | .known n :: rest =>
    match n.switch.keeps, n.attached with
    | none, _ => .error (helpHalt g n)
    | some name, some x => g.consume false (r.keep name (attachedValue x)) rest
    | some name, none =>
      match rest with
      | .plain t :: more => g.consume false (r.keep name t) more
      | _ => .error (switchError n.switch (lit "expected one argument"))
  | .plain t :: rest =>
    if r.positional.isSome then g.consume false (r.leave t) rest
    else
      match g.positional with
      | .word _ => g.consume true { r with positional := some [t] } rest
      | .command _ => .ok { r with positional := some (t :: rest.map Word.text) }
  | .separator :: rest =>
    if afterWord then g.consume false r rest
    else if r.positional.isSome then g.consume false (r.leave dashes) rest
    else
      match rest with
      | [] => g.finish (r.leave dashes)
      | w :: more =>
        match g.positional with
        | .word _ => g.consume false { r with positional := some [w.text] } more
        | .command _ =>
          .ok { r with positional := some (dashes :: w.text :: more.map Word.text) }

/-- The reading of a command line. -/
def read (g : Grammar) (words : List Text) : Except Halt Reading :=
  match g.classify words with
  | .error h => .error h
  | .ok ws => g.consume false Reading.empty ws

end Grammar

end CommandLine

end Keybox

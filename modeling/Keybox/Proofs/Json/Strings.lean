import Keybox.Json.Reader
import Keybox.Json.Writer
import Mathlib.Data.List.Chain

/-!
# Strings are read as they were written

A string that was written is read back unless a high surrogate stands right before a low one in it:
such a pair is written like the code point that it would stand for. One step of the reader is
described for each kind of escape; each code point that is written is then one step, and a string
is read by induction on its code points.
-/

namespace Keybox

namespace Text

/-- A text in which no high surrogate stands right before a low one. -/
def Unpaired
    (t : Text) : Prop :=
  t.IsChain fun c d => ¬ (c.isHighSurrogate = true ∧ d.isLowSurrogate = true)

instance
    (t : Text) :
    Decidable t.Unpaired :=
  inferInstanceAs (Decidable (List.IsChain _ _))

/-- A text without surrogates has no pair of them. -/
theorem unpaired_of_scalar
    {t : Text}
    (h : ∀ c ∈ t, c.isSurrogate = false) :
    t.Unpaired := by
  refine List.Pairwise.isChain (List.pairwise_of_forall_mem_list ?_)
  rintro c hc d - ⟨hhigh, -⟩
  have hscalar := h c hc
  simp only [CodePoint.isSurrogate, CodePoint.isHighSurrogate, decide_eq_false_iff_not,
    decide_eq_true_eq] at hscalar hhigh
  omega

end Text

namespace Json

/-! ## One step of the reader -/

section Steps

variable (opening offset : Nat)

theorem readText_quote
    (rest : Text) :
    readText opening offset (chr '"' :: rest) = .ok ([], ⟨offset + 1, rest⟩) := by
  rw [readText.eq_def]
  exact if_pos rfl

theorem readText_plain
    {c : CodePoint}
    (hquote : c ≠ chr '"')
    (hbackslash : c ≠ chr '\\')
    (hcontrol : 0x20 ≤ c.val)
    (rest : Text) :
    readText opening offset (c :: rest) = prepend c (readText opening (offset + 1) rest) := by
  rw [readText.eq_def]
  simp only [hquote, hbackslash, Nat.not_lt.mpr hcontrol, if_false]

theorem readText_short
    {e d : CodePoint}
    (hu : e ≠ chr 'u')
    (hd : shortEscape? e = some d)
    (rest : Text) :
    readText opening offset (chr '\\' :: e :: rest) =
      prepend d (readText opening (offset + 2) rest) := by
  rw [readText, if_neg (by decide), if_pos rfl]
  simp only [hu, if_false, hd]

theorem readText_unit
    {d : CodePoint}
    {rest : Text}
    (hd : fourHex? rest = some d)
    (hlone : d.isHighSurrogate = true → lowHalf? (rest.drop 4) = none) :
    readText opening offset (chr '\\' :: chr 'u' :: rest) =
      prepend d (readText opening (offset + 6) (rest.drop 4)) := by
  have hnone : (if d.isHighSurrogate = true then lowHalf? (rest.drop 4) else none) = none := by
    split
    · next hhigh => exact hlone hhigh
    · rfl
  rw [readText, if_neg (by decide), if_pos rfl]
  simp only [if_true, hd, hnone]

theorem readText_joined
    {high low : CodePoint}
    {rest : Text}
    (hd : fourHex? rest = some high)
    (hhigh : high.isHighSurrogate = true)
    (hlow : lowHalf? (rest.drop 4) = some low) :
    readText opening offset (chr '\\' :: chr 'u' :: rest) =
      prepend (joinSurrogates high low) (readText opening (offset + 12) (rest.drop 10)) := by
  rw [readText, if_neg (by decide), if_pos rfl]
  simp only [if_true, hd, hhigh, hlow]

end Steps

/-! ## Escapes by number -/

theorem hexValue?_hexDigit_all : ∀ n < 16, (CodePoint.hexDigit n).hexValue? = some n := by
  decide +kernel

theorem hexValue?_hexDigit
    (n : Nat) :
    (CodePoint.hexDigit n).hexValue? = some (n % 16) := by
  have hmod : CodePoint.hexDigit n = CodePoint.hexDigit (n % 16) := by
    simp [CodePoint.hexDigit]
  rw [hmod, hexValue?_hexDigit_all _ (Nat.mod_lt n (by decide))]

/-- The number of an escape is read back if more text follows. -/
theorem fourHex?_hex
    (c : CodePoint)
    (hc : c.val < 0x10000)
    {rest : Text}
    (hrest : rest ≠ []) :
    fourHex? (Text.hex 4 c.val ++ rest) = some c := by
  obtain ⟨d, rest, rfl⟩ := List.exists_cons_of_ne_nil hrest
  simp only [Text.hex, List.nil_append, List.cons_append, fourHex?, hexValue?_hexDigit,
    bind, Option.bind, pure]
  congr 1
  refine Fin.ext ?_
  simp only [Fin.ofNat]
  omega

@[simp] theorem length_hex
    (width n : Nat) :
    (Text.hex width n).length = width := by
  induction width generalizing n with
  | zero =>
      rfl
  | succ width ih =>
      simp [Text.hex, ih]

theorem lowHalf?_unitEscape
    (d : CodePoint)
    (hd : d.val < 0x10000)
    {rest : Text}
    (hrest : rest ≠ []) :
    lowHalf? (Record.unitEscape d.val ++ rest) =
      if d.isLowSurrogate = true then some d else none := by
  show lowHalf? (chr '\\' :: chr 'u' :: (Text.hex 4 d.val ++ rest)) = _
  simp only [lowHalf?, and_self, if_true, fourHex?_hex d hd hrest]

/-- No escape of a low surrogate begins with anything but a backslash and a `u`. -/
theorem lowHalf?_cons_cons
    {b u : CodePoint}
    (h : ¬ (b = chr '\\' ∧ u = chr 'u'))
    (rest : Text) :
    lowHalf? (b :: u :: rest) = none := by
  simp only [lowHalf?, h, if_false]

/-! ## One code point -/

/-- The two surrogates of a code point above the basic plane. -/
theorem joinSurrogates_halves
    {c high low : CodePoint}
    (hc : 0x10000 ≤ c.val)
    (hhigh : high.val = 0xD800 + (c.val - 0x10000) / 0x400)
    (hlow : low.val = 0xDC00 + (c.val - 0x10000) % 0x400) :
    joinSurrogates high low = c := by
  have hmax : c.val < 0x110000 := c.isLt
  refine Fin.ext ?_
  simp only [joinSurrogates, Fin.ofNat, hhigh, hlow]
  omega

/-- The escape of a code point in the basic plane is read as that code point, unless it is a high
surrogate and the escape of a low one follows. -/
theorem readText_unitEscape
    (opening offset : Nat)
    {c : CodePoint}
    (hc : c.val < 0x10000)
    {tail : Text}
    (htail : tail ≠ [])
    (hlone : c.isHighSurrogate = true → lowHalf? tail = none) :
    readText opening offset (Record.unitEscape c.val ++ tail) =
      prepend c (readText opening (offset + (Record.unitEscape c.val).length) tail) := by
  have hdrop : (Text.hex 4 c.val ++ tail).drop 4 = tail :=
    List.drop_left' (length_hex 4 c.val)
  show readText opening offset (chr '\\' :: chr 'u' :: (Text.hex 4 c.val ++ tail)) = _
  rw [readText_unit opening offset (fourHex?_hex c hc htail) (by rwa [hdrop]), hdrop]
  rfl

/-- The escapes of the two surrogates of a code point are read as that code point. -/
theorem readText_unitEscapes
    (opening offset : Nat)
    {c : CodePoint}
    (hc : 0x10000 ≤ c.val)
    {tail : Text}
    (htail : tail ≠ []) :
    readText opening offset
        (Record.unitEscape (0xD800 + (c.val - 0x10000) / 0x400) ++
          (Record.unitEscape (0xDC00 + (c.val - 0x10000) % 0x400) ++ tail)) =
      prepend c (readText opening (offset + 12) tail) := by
  have hmax : c.val < 0x110000 := c.isLt
  let high : CodePoint := ⟨0xD800 + (c.val - 0x10000) / 0x400, by omega⟩
  let low : CodePoint := ⟨0xDC00 + (c.val - 0x10000) % 0x400, by omega⟩
  have hhigh : high.isHighSurrogate = true := by
    simp only [CodePoint.isHighSurrogate, decide_eq_true_eq, high]
    omega
  have hlow : low.isLowSurrogate = true := by
    simp only [CodePoint.isLowSurrogate, decide_eq_true_eq, low]
    omega
  have hdrop : (Text.hex 4 high.val ++ (Record.unitEscape low.val ++ tail)).drop 4 =
      Record.unitEscape low.val ++ tail :=
    List.drop_left' (length_hex 4 high.val)
  have hdrop10 : (Text.hex 4 high.val ++ (Record.unitEscape low.val ++ tail)).drop 10 = tail := by
    rw [← List.append_assoc]
    exact List.drop_left' (by simp [Record.unitEscape, lit])
  have hhalf : lowHalf? (Record.unitEscape low.val ++ tail) = some low := by
    rw [lowHalf?_unitEscape low (by simp only [low]; omega) htail, if_pos hlow]
  have hjoin : joinSurrogates high low = c :=
    joinSurrogates_halves hc (by simp only [high]) (by simp only [low])
  show readText opening offset
      (chr '\\' :: chr 'u' :: (Text.hex 4 high.val ++ (Record.unitEscape low.val ++ tail))) = _
  rw [readText_joined opening offset
      (fourHex?_hex high (by simp only [high]; omega) (by simp [Record.unitEscape, lit]))
      hhigh (by rw [hdrop, hhalf]),
    hdrop10, hjoin]

/-- The ways in which a code point stands in a string that is written. -/
inductive Written
    (c : CodePoint) : Text → Prop where
  | short
      {e : CodePoint} :
      shortEscape? e = some c → e ≠ chr 'u' → e.isAscii = true → Written c [chr '\\', e]
  | plain :
      c ≠ chr '"' → c ≠ chr '\\' → 0x20 ≤ c.val → c.isAscii = true → Written c [c]
  | unit :
      c.val < 0x10000 → Written c (Record.unitEscape c.val)
  | pair :
      0x10000 ≤ c.val →
        Written c (Record.unitEscape (0xD800 + (c.val - 0x10000) / 0x400) ++
          Record.unitEscape (0xDC00 + (c.val - 0x10000) % 0x400))

theorem written_writePoint
    (c : CodePoint) :
    Written c (Record.writePoint c) := by
  have hshort : ∀ {e d : CodePoint}, c.val = d.val → shortEscape? e = some d → e ≠ chr 'u' →
      e.isAscii = true → Written c [chr '\\', e] := by
    intro e d hc he
    rw [Fin.ext hc]
    exact .short he
  rw [Record.writePoint]
  by_cases hquote : c = chr '"'
  · rw [if_pos hquote]
    exact hshort (congrArg Fin.val hquote) (by decide) (by decide) (by decide)
  rw [if_neg hquote]
  by_cases hbackslash : c = chr '\\'
  · rw [if_pos hbackslash]
    exact hshort (congrArg Fin.val hbackslash) (by decide) (by decide) (by decide)
  rw [if_neg hbackslash]
  split
  · next h8 => exact hshort (d := 0x08) h8 (by decide) (by decide) (by decide)
  split
  · next h9 => exact hshort (d := 0x09) h9 (by decide) (by decide) (by decide)
  split
  · next hA => exact hshort (d := 0x0A) hA (by decide) (by decide) (by decide)
  split
  · next hC => exact hshort (d := 0x0C) hC (by decide) (by decide) (by decide)
  split
  · next hD => exact hshort (d := 0x0D) hD (by decide) (by decide) (by decide)
  split
  · next hplain =>
    have hascii : c.isAscii = true := by
      rw [CodePoint.isAscii, decide_eq_true_eq]
      omega
    exact .plain hquote hbackslash hplain.1 hascii
  split
  · next hunit => exact .unit hunit
  · next hunit => exact .pair (Nat.le_of_not_lt hunit)

/-- A code point that was written is read back. A high surrogate needs that no escape of a low one
follows. -/
theorem readText_writePoint
    (opening offset : Nat)
    (c : CodePoint)
    {tail : Text}
    (htail : tail ≠ [])
    (hlone : c.isHighSurrogate = true → lowHalf? tail = none) :
    readText opening offset (Record.writePoint c ++ tail) =
      prepend c (readText opening (offset + (Record.writePoint c).length) tail) := by
  have hwritten := written_writePoint c
  generalize Record.writePoint c = u at hwritten
  cases hwritten with
  | short he hu _ =>
      exact readText_short opening offset hu he tail
  | plain hquote hbackslash hcontrol _ =>
      exact readText_plain opening offset hquote hbackslash hcontrol tail
  | unit hunit =>
      exact readText_unitEscape opening offset hunit htail hlone
  | pair hpair =>
      rw [List.append_assoc, readText_unitEscapes opening offset hpair htail]
      rfl

/-- What a code point other than a low surrogate is written as does not begin with the escape of
one. -/
theorem lowHalf?_writePoint
    {d : CodePoint}
    (hd : d.isLowSurrogate = false)
    {tail : Text}
    (htail : tail ≠ []) :
    lowHalf? (Record.writePoint d ++ tail) = none := by
  have hwritten := written_writePoint d
  generalize Record.writePoint d = u at hwritten
  cases hwritten with
  | short _ hu _ =>
      exact lowHalf?_cons_cons (fun h => hu h.2) tail
  | plain _ hbackslash _ _ =>
      obtain ⟨e, tail, rfl⟩ := List.exists_cons_of_ne_nil htail
      exact lowHalf?_cons_cons (fun h => hbackslash h.1) tail
  | unit hunit =>
      rw [lowHalf?_unitEscape d hunit htail, if_neg (by simp [hd])]
  | pair hpair =>
      have hmax : d.val < 0x110000 := d.isLt
      let high : CodePoint := ⟨0xD800 + (d.val - 0x10000) / 0x400, by omega⟩
      have hhigh : high.isLowSurrogate = false := by
        simp only [CodePoint.isLowSurrogate, decide_eq_false_iff_not, high]
        omega
      rw [List.append_assoc]
      show lowHalf? (Record.unitEscape high.val ++ _) = none
      rw [lowHalf?_unitEscape high (by simp only [high]; omega) (by simp [htail]),
        if_neg (by simp [hhigh])]

/-! ## Whole strings -/

/-- **Strings are read back.** A string without a surrogate pair, written and followed by a quote,
is read as itself, up to behind the quote. -/
theorem readText_flatMap_writePoint
    {t : Text}
    (ht : t.Unpaired)
    (opening offset : Nat)
    (tail : Text) :
    readText opening offset (t.flatMap Record.writePoint ++ chr '"' :: tail) =
      .ok (t, ⟨offset + (t.flatMap Record.writePoint).length + 1, tail⟩) := by
  induction t generalizing offset with
  | nil =>
      exact readText_quote opening offset tail
  | cons c t ih =>
      have hlone : c.isHighSurrogate = true →
          lowHalf? (t.flatMap Record.writePoint ++ chr '"' :: tail) = none := by
        intro hhigh
        cases t with
        | nil =>
            cases tail with
            | nil =>
                rfl
            | cons u tail =>
                exact lowHalf?_cons_cons (fun h => absurd h.1 (by decide)) tail
        | cons d t =>
            have hd : d.isLowSurrogate = false := by
              have := (List.isChain_cons_cons.mp ht).1
              simpa [hhigh] using this
            rw [List.flatMap_cons, List.append_assoc]
            exact lowHalf?_writePoint hd (by simp)
      rw [List.flatMap_cons, List.append_assoc,
        readText_writePoint opening offset c (by simp) hlone, ih (List.IsChain.tail ht)]
      simp [prepend, Except.map, Nat.add_assoc]

/-- A string in its quotes is read as itself. -/
theorem readText_writeText
    {t : Text}
    (ht : t.Unpaired)
    (opening offset : Nat)
    (tail : Text) :
    ∃ rest stop, Record.writeText t ++ tail = chr '"' :: rest ∧
      readText opening offset rest = .ok (t, ⟨stop, tail⟩) :=
  ⟨t.flatMap Record.writePoint ++ chr '"' :: tail,
    offset + (t.flatMap Record.writePoint).length + 1,
    by simp [Record.writeText], readText_flatMap_writePoint ht opening offset tail⟩

end Json

end Keybox

import Keybox.Proofs.Json.Records
import Mathlib.Data.List.TakeWhile

/-!
# Refused integers and refused depth

A reader stops within the text that it was given. It refuses an integer for its length only where
the text has a run of more digits than an integer may have, and brackets for their depth only where
the text has more opening brackets than it may have levels.

**Results.** This holds of each reader, of values by induction on the depth of their brackets; so in
a document without such a run and without so many brackets only the grammar can be at fault. A
document that is nothing but the numeral of a large number is refused for its length, and one that
begins with too many opening brackets for its depth.
-/

namespace Keybox

namespace Json

/-- A text has a run of so many digits, more than an integer may have. -/
def HasLongRun
    (t : Text)
    (n : Nat) : Prop :=
  digitLimit < n ∧ ∃ ds : Text, ds <:+: t ∧ ds.length = n ∧ ∀ d ∈ ds, d.isDigit = true

theorem HasLongRun.longer
    {s t : Text}
    {n : Nat}
    (h : HasLongRun s n)
    (hst : s <:+ t) :
    HasLongRun t n := by
  obtain ⟨hn, ds, hds, hlength, hdigits⟩ := h
  exact ⟨hn, ds, hds.trans hst.isInfix, hlength, hdigits⟩

/-- The two opening brackets. -/
def opensBracket
    (c : CodePoint) : Bool :=
  c == chr '[' || c == chr '\x7b'

/-- What is read from a text leaves an end of it, only a run of too many digits in it is refused for
its length, and only more opening brackets than there may be levels are refused for their depth. -/
structure Within
    {α : Type}
    (levels : Nat)
    (r : Reading α)
    (t : Text) : Prop where
  leaves : ∀ a c, r = .ok (a, c) → c.rest <:+ t
  refuses : ∀ n, r = .error (.tooLong n) → HasLongRun t n
  nests : ∀ bracket, r = .error (.tooDeep bracket) → levels < t.countP opensBracket

namespace Within

variable
  {α β : Type}
  {levels : Nat}
  {r : Reading α}
  {s t : Text}

theorem ok
    (a : α)
    {c : Cursor}
    (h : c.rest <:+ t) :
    Within levels (.ok (a, c)) t := by
  refine ⟨?_, by rintro n ⟨⟩, by rintro _ ⟨⟩⟩
  rintro _ _ ⟨⟩
  exact h

theorem malformed
    (issue : Issue)
    (offset : Nat)
    (t : Text) :
    Within levels (.error (.malformed issue offset) : Reading α) t :=
  ⟨by rintro _ _ ⟨⟩, by rintro _ ⟨⟩, by rintro _ ⟨⟩⟩

/-- Where there may be no brackets, one is too many. -/
theorem tooDeep
    (bracket : Bracket)
    {d : CodePoint}
    (hd : opensBracket d = true)
    (rest : Text) :
    Within 0 (.error (.tooDeep bracket) : Reading α) (d :: rest) := by
  refine ⟨by rintro _ _ ⟨⟩, by rintro _ ⟨⟩, ?_⟩
  intro _ _
  rw [List.countP_cons_of_pos hd]
  omega

theorem longer
    (h : Within levels r s)
    (hst : s <:+ t) :
    Within levels r t :=
  ⟨fun a c hr => (h.leaves a c hr).trans hst, fun n hr => (h.refuses n hr).longer hst,
    fun b hr => (h.nests b hr).trans_le hst.sublist.countP_le⟩

/-- A bracket more makes room for a level more. -/
theorem bracket
    {d : CodePoint}
    (hd : opensBracket d = true)
    (h : Within levels r t) :
    Within (levels + 1) r (d :: t) := by
  have hlonger := h.longer (List.suffix_cons d t)
  refine ⟨hlonger.leaves, hlonger.refuses, ?_⟩
  intro b hr
  rw [List.countP_cons_of_pos hd]
  exact Nat.succ_lt_succ (h.nests b hr)

theorem map
    (h : Within levels r t)
    (f : α → β) :
    Within levels (r.map fun p => (f p.1, p.2)) t := by
  cases r with
  | error fault =>
      refine ⟨by rintro _ _ ⟨⟩, ?_, ?_⟩
      · rintro n ⟨⟩
        exact h.refuses n rfl
      · rintro b ⟨⟩
        exact h.nests b rfl
  | ok p =>
      refine ⟨?_, by rintro _ ⟨⟩, by rintro _ ⟨⟩⟩
      rintro _ _ ⟨⟩
      exact h.leaves p.1 p.2 rfl

/-- A reader that fails as one before it does. -/
theorem of_error
    (h : Within levels r t)
    {fault : Fault}
    (hr : r = .error fault) :
    Within levels (.error fault : Reading β) t := by
  subst hr
  refine ⟨by rintro _ _ ⟨⟩, ?_, ?_⟩
  · rintro n ⟨⟩
    exact h.refuses n rfl
  · rintro b ⟨⟩
    exact h.nests b rfl

end Within

section Readers

variable (levels : Nat)

theorem rest_skipBlanks
    (offset : Nat)
    (t : Text) :
    (skipBlanks offset t).rest <:+ t := by
  induction t generalizing offset with
  | nil =>
      exact List.suffix_rfl
  | cons c rest ih =>
      rw [skipBlanks]
      split
      · exact (ih (offset + 1)).trans (List.suffix_cons c rest)
      · exact List.suffix_rfl

/-! ## Strings and numbers -/

theorem within_readText
    (opening offset : Nat)
    (t : Text) :
    Within levels (readText opening offset t) t := by
  fun_induction readText opening offset t with
  | case1 offset =>
      exact .malformed _ _ _
  | case2 offset rest =>
      exact .ok _ (List.suffix_cons _ rest)
  | case3 offset _ =>
      exact .malformed _ _ _
  | case4 offset rest _ _ =>
      exact .malformed _ _ _
  | case5 offset rest _ _ low _ _ ih =>
      refine (ih.map _).longer ((List.drop_suffix 10 rest).trans ?_)
      exact (List.suffix_cons _ rest).trans (List.suffix_cons _ _)
  | case6 offset rest _ _ _ _ ih =>
      refine (ih.map _).longer ((List.drop_suffix 4 rest).trans ?_)
      exact (List.suffix_cons _ rest).trans (List.suffix_cons _ _)
  | case7 offset e rest _ _ _ =>
      exact .malformed _ _ _
  | case8 offset e rest _ _ _ _ ih =>
      exact (ih.map _).longer ((List.suffix_cons _ rest).trans (List.suffix_cons _ _))
  | case9 offset c rest _ _ _ =>
      exact .malformed _ _ _
  | case10 offset c rest _ _ _ ih =>
      exact (ih.map _).longer (List.suffix_cons _ rest)

theorem isPrefix_wholeDigits
    (t : Text) :
    wholeDigits t <+: t := by
  cases t with
  | nil =>
      exact List.prefix_rfl
  | cons d rest =>
      rw [wholeDigits]
      split
      · exact List.prefix_append [d] rest
      · exact List.takeWhile_prefix _

theorem isDigit_of_mem_wholeDigits
    {t : Text}
    {d : CodePoint}
    (hd : d ∈ wholeDigits t) :
    d.isDigit = true := by
  cases t with
  | nil =>
      cases hd
  | cons c rest =>
      rw [wholeDigits] at hd
      split at hd
      · next hzero =>
        obtain rfl := List.mem_singleton.mp hd
        rw [hzero]
        rfl
      · exact List.all_eq_true.mp List.all_takeWhile d hd

theorem within_readUnsigned
    (negative : Bool)
    (start offset : Nat)
    (t : Text) :
    Within levels (readUnsigned negative start offset t) t := by
  rw [readUnsigned]
  split
  · exact .malformed _ _ _
  · split
    · refine .ok _ ((List.drop_suffix _ _).trans ((List.drop_suffix _ _).trans ?_))
      exact List.drop_suffix _ t
    · split
      · split
        · next hlong =>
          refine ⟨by rintro _ _ ⟨⟩, ?_, by rintro _ ⟨⟩⟩
          rintro n ⟨⟩
          exact ⟨hlong, wholeDigits t, (isPrefix_wholeDigits t).isInfix, rfl,
            fun _ => isDigit_of_mem_wholeDigits⟩
        · exact .ok _ (List.drop_suffix _ t)
      · exact .ok _ ((List.drop_suffix _ _).trans (List.drop_suffix _ t))

theorem within_readNumber
    (c : Cursor) :
    Within levels (readNumber c) c.rest := by
  rw [readNumber]
  split
  · exact .malformed _ _ _
  · next s rest hrest =>
    rw [hrest]
    split
    · exact (within_readUnsigned levels _ _ _ rest).longer (List.suffix_cons s rest)
    · exact within_readUnsigned levels _ _ _ _

theorem within_readBare
    (c : Cursor) :
    Within levels (readBare c) c.rest := by
  rw [readBare]
  split
  · exact .ok _ (List.drop_suffix _ _)
  · exact within_readNumber levels c

/-! ## Values in brackets -/

section Brackets

variable
  {levels}
  {item : Cursor → Reading Json}
  (hitem : ∀ c, Within levels (item c) c.rest)

include hitem

theorem within_readItems
    (bound : Nat)
    (c : Cursor) :
    Within levels (readItems item bound c) c.rest := by
  induction bound generalizing c with
  | zero =>
      exact .malformed _ _ _
  | succ bound ih =>
      rw [readItems]
      split
      · next hfirst => exact (hitem c).of_error hfirst
      · next v c' hfirst =>
        refine Within.longer ?_ ((hitem c).leaves v c' hfirst)
        refine Within.longer ?_ (rest_skipBlanks c'.offset c'.rest)
        dsimp only
        split
        · exact .malformed _ _ _
        · next d rest hrest =>
          rw [hrest]
          split
          · exact .ok _ (List.suffix_cons d rest)
          · split
            · exact ((ih _).map _).longer
                ((rest_skipBlanks _ rest).trans (List.suffix_cons d rest))
            · exact .malformed _ _ _

omit hitem in
theorem within_readName
    (levels : Nat)
    (c : Cursor) :
    Within levels (readName c) c.rest := by
  rw [readName]
  split
  · exact .malformed _ _ _
  · next q rest hrest =>
    rw [hrest]
    refine Within.longer ?_ (List.suffix_cons q rest)
    split
    · split
      · next htext => exact (within_readText levels _ _ rest).of_error htext
      · next name c' htext =>
        refine Within.longer ?_ ((within_readText levels _ _ rest).leaves name c' htext)
        refine Within.longer ?_ (rest_skipBlanks c'.offset c'.rest)
        dsimp only
        split
        · exact .malformed _ _ _
        · next d rest hrest =>
          rw [hrest]
          split
          · exact .ok _ ((rest_skipBlanks _ rest).trans (List.suffix_cons d rest))
          · exact .malformed _ _ _
    · exact .malformed _ _ _

theorem within_readMembers
    (bound : Nat)
    (c : Cursor) :
    Within levels (readMembers item bound c) c.rest := by
  induction bound generalizing c with
  | zero =>
      exact .malformed _ _ _
  | succ bound ih =>
      rw [readMembers]
      split
      · next hname => exact (within_readName levels c).of_error hname
      · next name c₁ hname =>
        refine Within.longer ?_ ((within_readName levels c).leaves name c₁ hname)
        split
        · next hvalue => exact (hitem c₁).of_error hvalue
        · next v c₂ hvalue =>
          refine Within.longer ?_ ((hitem c₁).leaves v c₂ hvalue)
          refine Within.longer ?_ (rest_skipBlanks c₂.offset c₂.rest)
          dsimp only
          split
          · exact .malformed _ _ _
          · next d rest hrest =>
            rw [hrest]
            split
            · exact .ok _ (List.suffix_cons d rest)
            · split
              · exact ((ih _).map _).longer
                  ((rest_skipBlanks _ rest).trans (List.suffix_cons d rest))
              · exact .malformed _ _ _

theorem within_readArray
    (offset : Nat)
    (t : Text) :
    Within levels (readArray item offset t) t := by
  rw [readArray]
  refine Within.longer ?_ (rest_skipBlanks offset t)
  split
  · exact .malformed _ _ _
  · next d rest hrest =>
    split
    · exact .ok _ (hrest ▸ List.suffix_cons d rest)
    · exact (within_readItems hitem _ _).map Json.array

theorem within_readObject
    (offset : Nat)
    (t : Text) :
    Within levels (readObject item offset t) t := by
  rw [readObject]
  refine Within.longer ?_ (rest_skipBlanks offset t)
  split
  · exact .malformed _ _ _
  · next d rest hrest =>
    split
    · exact .ok _ (hrest ▸ List.suffix_cons d rest)
    · exact (within_readMembers hitem _ _).map fun members => Json.object (Members.ofList members)

end Brackets

end Readers

/-! ## Documents -/

theorem within_readWith_none
    (c : Cursor) :
    Within 0 (readWith none c) c.rest := by
  rw [readWith]
  split
  · exact .malformed _ _ _
  · next d rest hrest =>
    split
    · rw [hrest]
      exact ((within_readText 0 _ _ rest).map _).longer (List.suffix_cons d rest)
    · split
      · next harray =>
        rw [hrest]
        exact .tooDeep _ (by rw [harray]; decide) rest
      · split
        · next hobject =>
          rw [hrest]
          exact .tooDeep _ (by rw [hobject]; decide) rest
        · exact within_readBare 0 c

theorem within_readWith_some
    {levels : Nat}
    {item : Cursor → Reading Json}
    (hitem : ∀ c, Within levels (item c) c.rest)
    (c : Cursor) :
    Within (levels + 1) (readWith (some item) c) c.rest := by
  rw [readWith]
  split
  · exact .malformed _ _ _
  · next d rest hrest =>
    split
    · rw [hrest]
      exact ((within_readText _ _ _ rest).map _).longer (List.suffix_cons d rest)
    · split
      · next harray =>
        rw [hrest]
        exact (within_readArray hitem _ rest).bracket (by rw [harray]; decide)
      · split
        · next hobject =>
          rw [hrest]
          exact (within_readObject hitem _ rest).bracket (by rw [hobject]; decide)
        · exact within_readBare _ c

theorem within_readValue
    (levels : Nat)
    (c : Cursor) :
    Within levels (readValue levels c) c.rest := by
  induction levels generalizing c with
  | zero =>
      exact within_readWith_none c
  | succ levels ih =>
      exact within_readWith_some ih c

/-- A document that is refused for an integer's length has a run of so many digits. -/
theorem hasLongRun_of_read
    {document : Text}
    {n : Nat}
    (h : read document = .error (.tooLong n)) :
    HasLongRun document n := by
  rw [read] at h
  split at h
  · cases h
  · split at h
    · next hvalue =>
      obtain rfl := Except.error.inj h
      exact ((within_readValue depthLimit _).refuses n hvalue).longer (rest_skipBlanks 0 document)
    · dsimp only at h
      split at h <;> cases h

/-- A document that is refused for its depth has more opening brackets than there may be levels. -/
theorem depthLimit_lt_of_read
    {document : Text}
    {bracket : Bracket}
    (h : read document = .error (.tooDeep bracket)) :
    depthLimit < document.countP opensBracket := by
  rw [read] at h
  split at h
  · cases h
  · split at h
    · next hvalue =>
      obtain rfl := Except.error.inj h
      exact ((within_readValue depthLimit _).longer (rest_skipBlanks 0 document)).nests _ hvalue
    · dsimp only at h
      split at h <;> cases h

/-- Opening brackets one after another are a level each. -/
theorem readValue_brackets
    {levels n : Nat}
    (hn : levels < n)
    (offset : Nat) :
    readValue levels ⟨offset, List.replicate n (chr '[')⟩ = .error (.tooDeep .array) := by
  have hquote : chr '[' ≠ chr '"' := by decide
  have hclose : chr '[' ≠ chr ']' := by decide
  induction levels generalizing n offset with
  | zero =>
      obtain ⟨n, rfl⟩ := Nat.exists_eq_add_of_lt hn
      rw [readValue, readWith, List.replicate_succ]
      simp only [hquote, if_false, if_true]
  | succ levels ih =>
      obtain ⟨n, rfl⟩ : ∃ m, n = m + 2 := ⟨n - 2, by omega⟩
      have hinner := ih (n := n + 1) (by omega) (offset + 1)
      rw [List.replicate_succ] at hinner
      rw [readValue, readWith, List.replicate_succ, List.replicate_succ]
      simp only [hquote, if_false, if_true, readArray, skipBlanks_cons (c := chr '[') (by decide),
        hclose, List.length_cons, readItems, hinner]
      rfl

/-- Too many opening brackets are no document. -/
theorem read_brackets
    {n : Nat}
    (hn : depthLimit < n) :
    read (List.replicate n (chr '[')) = .error (.tooDeep .array) := by
  have hread := readValue_brackets hn 0
  obtain ⟨n, rfl⟩ := Nat.exists_eq_add_of_lt hn
  rw [List.replicate_succ] at hread ⊢
  rw [read, if_neg (by rintro ⟨⟩), skipBlanks_cons (by decide), hread]

/-! ## Numerals -/

/-- Whether a code point is no blank and begins neither a string nor brackets nor a word. -/
def opensNumber
    (c : CodePoint) : Bool :=
  !isBlank c && c != chr '"' && c != chr '[' && c != chr '\x7b' && c != chr '-' &&
    words.all fun word => word.1.head? != some c

theorem opensNumber_digit_all : ∀ n < 10, opensNumber (Fin.ofNat _ (0x30 + n)) = true := by
  decide +kernel

theorem opensNumber_of_isDigit
    {d : CodePoint}
    (hd : d.isDigit = true) :
    opensNumber d = true := by
  rw [CodePoint.isDigit, decide_eq_true_eq] at hd
  have hoffset : d.val - 0x30 < 10 := by omega
  have hd' : d = Fin.ofNat _ (0x30 + (d.val - 0x30)) := by
    apply Fin.ext
    rw [Fin.val_ofNat, Nat.mod_eq_of_lt (by omega)]
    omega
  rw [hd']
  exact opensNumber_digit_all _ hoffset

/-- What begins with a digit is read as a number without a sign. -/
theorem readWith_number
    {d : CodePoint}
    (hd : opensNumber d = true)
    (item? : Option (Cursor → Reading Json))
    (offset : Nat)
    (rest : Text) :
    readWith item? ⟨offset, d :: rest⟩ = readUnsigned false offset offset (d :: rest) := by
  simp only [opensNumber, Bool.and_eq_true, bne_iff_ne, List.all_eq_true] at hd
  obtain ⟨⟨⟨⟨⟨-, hquote⟩, harray⟩, hobject⟩, hsign⟩, hwords⟩ := hd
  have hnames : ∀ word ∈ words, word.1 ≠ [] := by decide
  have hword : (words.find? fun w => Text.beginsWith w.1 (d :: rest)) = none := by
    rw [List.find?_eq_none]
    intro word hword hbegins
    rw [Text.beginsWith, List.isPrefixOf_iff_prefix] at hbegins
    have hhead := hwords word hword
    obtain ⟨c, letters, hletters⟩ := List.exists_cons_of_ne_nil (hnames word hword)
    rw [hletters] at hbegins hhead
    obtain ⟨rfl, -⟩ := List.cons_prefix_cons.mp hbegins
    exact hhead rfl
  rw [readWith]
  simp only [hquote, harray, hobject, if_false, readBare, hword, readNumber, hsign]

theorem readUnsigned_of_long
    {ds : Text}
    (hdigits : ∀ d ∈ ds, d.isDigit = true)
    (hzero : ds.head? ≠ some (chr '0'))
    (hlong : digitLimit < ds.length)
    (negative : Bool)
    (start offset : Nat) :
    readUnsigned negative start offset ds = .error (.tooLong ds.length) := by
  have hrun : digitRun ds = ds := List.takeWhile_eq_self_iff.mpr hdigits
  have hwhole : wholeDigits ds = ds := by
    cases ds with
    | nil =>
        rfl
    | cons d rest =>
        have hd : d ≠ chr '0' := fun h => hzero (congrArg some h)
        rw [wholeDigits, if_neg hd, hrun]
  have hne : ds ≠ [] := by
    rintro rfl
    exact absurd hlong (by decide)
  simp only [readUnsigned, hwhole, List.drop_length, fractionDigits, List.drop_nil, exponentPart?,
    hne, if_false, if_true, hlong]

/-- The numeral of a number with too many digits is no document. -/
theorem read_of_long
    {ds : Text}
    (hdigits : ∀ d ∈ ds, d.isDigit = true)
    (hzero : ds.head? ≠ some (chr '0'))
    (hlong : digitLimit < ds.length) :
    read ds = .error (.tooLong ds.length) := by
  cases ds with
  | nil =>
      exact absurd hlong (by decide)
  | cons d rest =>
      have hd := hdigits d List.mem_cons_self
      have hopens := opensNumber_of_isDigit hd
      have hblank : isBlank d = false := by
        simp only [opensNumber, Bool.and_eq_true] at hopens
        simpa using hopens.1.1.1.1.1
      have hmark : (d :: rest).head? ≠ some 0xFEFF := by
        rintro ⟨⟩
        cases hd
      have hvalue : readValue depthLimit ⟨0, d :: rest⟩ =
          .error (.tooLong (d :: rest).length) := by
        change readWith _ _ = _
        rw [readWith_number hopens, readUnsigned_of_long hdigits hzero hlong]
      rw [read, if_neg hmark, skipBlanks_cons hblank, hvalue]

end Json

end Keybox

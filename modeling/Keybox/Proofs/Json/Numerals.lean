import Keybox.Proofs.Json.LongNumbers

/-!
# How a number may be written

A number is written with digits of which the first is no zero unless it stands alone, with a minus
before them if it is negative, and then with a fraction, an exponent, both or none. With one of the
two it is a double, else an integer, whose digits are limited. The numerals are described here apart
from the reader, which takes as much of a text as it can.

**Results.** The reader takes a numeral off the front of a text, and it takes any numeral with which
no more of the text belongs together.
-/

namespace Keybox

namespace Json

/-- Digits, at least one. -/
def IsDigits
    (ds : Text) : Prop :=
  ds ≠ [] ∧ ∀ d ∈ ds, d.isDigit = true

/-- Digits of which the first is no zero unless it stands alone. -/
def IsWhole
    (ds : Text) : Prop :=
  IsDigits ds ∧ (ds.head? = some (chr '0') → ds = [chr '0'])

/-- A point and the digits after it, or nothing. -/
inductive IsFraction : Text → Text → Prop where
  | none :
      IsFraction [] []
  | digits
      {ds : Text} :
      IsDigits ds → IsFraction (chr '.' :: ds) ds

/-- A letter and an exponent of ten, with a sign or without. -/
inductive IsExponent : Text → Int → Prop where
  | unsigned
      {e : CodePoint}
      {ds : Text} :
      e = chr 'e' ∨ e = chr 'E' → IsDigits ds → IsExponent (e :: ds) (digitsValue ds)
  | plus
      {e : CodePoint}
      {ds : Text} :
      e = chr 'e' ∨ e = chr 'E' → IsDigits ds → IsExponent (e :: chr '+' :: ds) (digitsValue ds)
  | minus
      {e : CodePoint}
      {ds : Text} :
      e = chr 'e' ∨ e = chr 'E' → IsDigits ds → IsExponent (e :: chr '-' :: ds) (-(digitsValue ds))

/-- A number after its sign. -/
inductive IsUnsigned
    (negative : Bool) : Text → Json → Prop where
  | int
      {ds : Text} :
      IsWhole ds → ds.length ≤ digitLimit →
        IsUnsigned negative ds
          (.int (if negative then -(digitsValue ds : Int) else digitsValue ds))
  | fraction
      {ds f fs : Text} :
      IsWhole ds → IsFraction f fs → f ≠ [] →
        IsUnsigned negative (ds ++ f)
          (.real (Binary64.ofDecimal negative (digitsValue (ds ++ fs)) (-(fs.length : Int))))
  | exponent
      {ds f fs x : Text}
      {e : Int} :
      IsWhole ds → IsFraction f fs → IsExponent x e →
        IsUnsigned negative (ds ++ (f ++ x))
          (.real (Binary64.ofDecimal negative (digitsValue (ds ++ fs)) (e - fs.length)))

/-- A number. -/
inductive IsNumber : Text → Json → Prop where
  | unsigned
      {t : Text}
      {v : Json} :
      IsUnsigned false t v → IsNumber t v
  | negative
      {t : Text}
      {v : Json} :
      IsUnsigned true t v → IsNumber (chr '-' :: t) v

/-- Nothing more, or what may stand after a value: a blank, a comma or a closing bracket. -/
def Ends
    (t : Text) : Prop :=
  ∀ c, t.head? = some c → isBlank c = true ∨ c ∈ [chr ',', chr ']', chr '\x7d']

/-! ## Where digits stop -/

/-- A text that does not begin with a digit. -/
def NoDigit
    (t : Text) : Prop :=
  ∀ c, t.head? = some c → c.isDigit = false

theorem noDigit_cons
    {c : CodePoint}
    (hc : c.isDigit = false)
    (t : Text) :
    NoDigit (c :: t) := by
  rintro _ ⟨⟩
  exact hc

/-- What may stand after a value continues no numeral. -/
theorem Ends.head
    {t : Text}
    (h : Ends t)
    {c : CodePoint}
    (hc : t.head? = some c) :
    c.isDigit = false ∧ c ≠ chr '.' ∧ ¬ (c = chr 'e' ∨ c = chr 'E') := by
  rcases h c hc with hblank | hmem
  · simp only [isBlank, Bool.or_eq_true, decide_eq_true_eq] at hblank
    rcases hblank with ((rfl | rfl) | rfl) | rfl <;> decide
  · simp only [List.mem_cons, List.not_mem_nil, or_false] at hmem
    rcases hmem with rfl | rfl | rfl <;> decide

theorem Ends.noDigit
    {t : Text}
    (h : Ends t) :
    NoDigit t :=
  fun _ hc => (h.head hc).1

theorem digitRun_append
    {ds rest : Text}
    (hds : ∀ d ∈ ds, d.isDigit = true)
    (hrest : NoDigit rest) :
    digitRun (ds ++ rest) = ds := by
  have hstop : rest.takeWhile CodePoint.isDigit = [] := by
    cases rest with
    | nil =>
        rfl
    | cons c rest =>
        rw [List.takeWhile_cons, if_neg (by simp [hrest c rfl])]
  rw [digitRun, List.takeWhile_append_of_pos hds, hstop, List.append_nil]

/-- The digits that are taken, if there are any, and what is left. -/
theorem exists_digitRun
    (t : Text) :
    ∃ rest, t = digitRun t ++ rest ∧ (digitRun t ≠ [] → IsDigits (digitRun t)) :=
  ⟨t.dropWhile CodePoint.isDigit, (List.takeWhile_append_dropWhile ..).symm,
    fun hne => ⟨hne, fun _ hd => List.all_eq_true.mp List.all_takeWhile _ hd⟩⟩

/-! ## The parts of a numeral -/

theorem wholeDigits_append
    {ds rest : Text}
    (hds : IsWhole ds)
    (hrest : NoDigit rest) :
    wholeDigits (ds ++ rest) = ds := by
  obtain ⟨⟨hne, hdigits⟩, hzero⟩ := hds
  cases ds with
  | nil =>
      exact absurd rfl hne
  | cons d ds =>
      rw [List.cons_append, wholeDigits]
      split
      · next hd =>
        subst hd
        exact (hzero rfl).symm
      · rw [← List.cons_append]
        exact digitRun_append hdigits hrest

theorem isWhole_wholeDigits
    {t : Text}
    (hne : wholeDigits t ≠ []) :
    IsWhole (wholeDigits t) := by
  refine ⟨⟨hne, fun d => isDigit_of_mem_wholeDigits⟩, ?_⟩
  cases t with
  | nil =>
      exact absurd rfl hne
  | cons d rest =>
      rw [wholeDigits] at hne ⊢
      split
      · next hd =>
        intro _
        rw [hd]
      · next hd =>
        rw [if_neg hd] at hne
        intro hhead
        -- A run of digits begins like the text that it is taken from.
        obtain ⟨more, hmore, -⟩ := exists_digitRun (d :: rest)
        obtain ⟨e, es, hrun⟩ := List.exists_cons_of_ne_nil hne
        rw [hrun] at hmore hhead
        cases hmore
        exact absurd (Option.some.inj hhead) hd

/-- A fraction is taken if what follows cannot be taken for it. -/
theorem fractionDigits_append
    {f fs rest : Text}
    (hf : IsFraction f fs)
    (hrest : NoDigit rest)
    (hpoint : f = [] → rest.head? ≠ some (chr '.')) :
    fractionDigits (f ++ rest) = fs := by
  cases hf with
  | none =>
      cases rest with
      | nil =>
          rfl
      | cons c rest =>
          rw [List.nil_append, fractionDigits, if_neg]
          rintro rfl
          exact hpoint rfl rfl
  | digits hds =>
      rw [List.cons_append, fractionDigits, if_pos rfl]
      exact digitRun_append hds.2 hrest

theorem exists_isFraction
    (t : Text) :
    ∃ f rest, t = f ++ rest ∧ IsFraction f (fractionDigits t) := by
  cases t with
  | nil =>
      exact ⟨[], [], rfl, .none⟩
  | cons c rest =>
      rw [fractionDigits]
      split
      · next hc =>
        subst hc
        obtain ⟨more, hmore, hdigits⟩ := exists_digitRun rest
        by_cases hnil : digitRun rest = []
        · rw [hnil]
          exact ⟨[], _, rfl, .none⟩
        · exact ⟨chr '.' :: digitRun rest, more, by rw [List.cons_append, ← hmore],
            .digits (hdigits hnil)⟩
      · exact ⟨[], _, rfl, .none⟩

theorem IsFraction.length_eq
    {f fs : Text}
    (hf : IsFraction f fs) :
    (if fs = [] then 0 else fs.length + 1) = f.length := by
  cases hf with
  | none =>
      rfl
  | digits hds =>
      rw [if_neg hds.1, List.length_cons]

theorem IsFraction.eq_nil_iff
    {f fs : Text}
    (hf : IsFraction f fs) :
    fs = [] ↔ f = [] := by
  cases hf with
  | none =>
      exact Iff.rfl
  | digits hds =>
      exact iff_of_false hds.1 (List.cons_ne_nil _ _)

theorem exponentPart?_append
    {x rest : Text}
    {e : Int}
    (hx : IsExponent x e)
    (hrest : NoDigit rest) :
    exponentPart? (x ++ rest) = some (e, x.length) := by
  have hrun : ∀ {ds : Text}, IsDigits ds →
      digitRun (ds ++ rest) = ds ∧ ∃ d more, ds = d :: more ∧ d ≠ chr '-' ∧ d ≠ chr '+' := by
    rintro ds ⟨hne, hdigits⟩
    obtain ⟨d, more, rfl⟩ := List.exists_cons_of_ne_nil hne
    refine ⟨digitRun_append hdigits hrest, d, more, rfl, ?_⟩
    have hd := hdigits d List.mem_cons_self
    constructor
    · rintro rfl
      cases hd
    · rintro rfl
      cases hd
  have hsigns : chr '+' ≠ chr '-' := by decide
  cases hx with
  | unsigned he hds =>
      obtain ⟨hdigits, d, more, rfl, hminus, hplus⟩ := hrun hds
      rw [List.cons_append] at hdigits
      simp only [List.cons_append, exponentPart?, he, if_true, hminus, hplus, if_false, hdigits,
        List.length_cons]
  | plus he hds =>
      obtain ⟨hdigits, d, more, rfl, -, -⟩ := hrun hds
      rw [List.cons_append] at hdigits
      simp only [List.cons_append, exponentPart?, he, if_true, hsigns, if_false, hdigits,
        List.length_cons]
  | minus he hds =>
      obtain ⟨hdigits, d, more, rfl, -, -⟩ := hrun hds
      rw [List.cons_append] at hdigits
      simp only [List.cons_append, exponentPart?, he, if_true, hdigits, List.length_cons]

theorem Ends.exponentPart?_eq
    {t : Text}
    (h : Ends t) :
    exponentPart? t = none := by
  cases t with
  | nil =>
      rfl
  | cons c t =>
      rw [exponentPart?.eq_def]
      exact if_neg (h.head rfl).2.2

theorem isExponent_of_exponentPart?
    {t : Text}
    {e : Int}
    {n : Nat}
    (h : exponentPart? t = some (e, n)) :
    ∃ x rest, t = x ++ rest ∧ x.length = n ∧ IsExponent x e := by
  rw [exponentPart?.eq_def] at h
  split at h
  · cases h
  · next c rest =>
    split_ifs at h with hc
    split at h
    · cases h
    · next s more =>
      split_ifs at h with hminus hplus
      · obtain ⟨last, hlast, hdigits⟩ := exists_digitRun more
        split at h
        · cases h
        · next hne =>
          cases h
          refine ⟨c :: chr '-' :: digitRun more, last, ?_, rfl, .minus hc (hdigits hne)⟩
          rw [hminus, List.cons_append, List.cons_append, ← hlast]
      · obtain ⟨last, hlast, hdigits⟩ := exists_digitRun more
        split at h
        · cases h
        · next hne =>
          cases h
          refine ⟨c :: chr '+' :: digitRun more, last, ?_, rfl, .plus hc (hdigits hne)⟩
          rw [hplus, List.cons_append, List.cons_append, ← hlast]
      · obtain ⟨last, hlast, hdigits⟩ := exists_digitRun (s :: more)
        split at h
        · cases h
        · next hne =>
          cases h
          refine ⟨c :: digitRun (s :: more), last, ?_, rfl, .unsigned hc (hdigits hne)⟩
          rw [List.cons_append, ← hlast]

/-! ## Numerals -/

/-- What is read, from the parts that are taken. -/
theorem readUnsigned_of_parts
    {ds f fs rest : Text}
    (hds : wholeDigits (ds ++ (f ++ rest)) = ds)
    (hne : ds ≠ [])
    (hf : IsFraction f fs)
    (hfs : fractionDigits (f ++ rest) = fs)
    (negative : Bool)
    (start offset : Nat) :
    readUnsigned negative start offset (ds ++ (f ++ rest)) =
      match exponentPart? rest with
      | some (e, length) =>
        .ok (.real (Binary64.ofDecimal negative (digitsValue (ds ++ fs)) (e - fs.length)),
          ⟨offset + ds.length + f.length + length, rest.drop length⟩)
      | none =>
        if fs = [] then
          if ds.length > digitLimit then .error (.tooLong ds.length)
          else
            .ok (.int (if negative then -(digitsValue ds : Int) else digitsValue ds),
              ⟨offset + ds.length, f ++ rest⟩)
        else
          .ok (.real (Binary64.ofDecimal negative (digitsValue (ds ++ fs)) (-(fs.length : Int))),
            ⟨offset + ds.length + f.length, rest⟩) := by
  have hread := readUnsigned.eq_1 negative start offset (ds ++ (f ++ rest))
  simp only [hds, List.drop_left, hfs, hne, if_false, hf.length_eq] at hread
  exact hread

/-- A numeral is read where it ends. -/
theorem IsUnsigned.readUnsigned_eq
    {negative : Bool}
    {t rest : Text}
    {v : Json}
    (h : IsUnsigned negative t v)
    (hrest : Ends rest)
    (start offset : Nat) :
    ∃ stop, readUnsigned negative start offset (t ++ rest) = .ok (v, ⟨stop, rest⟩) := by
  have hpoint : rest.head? ≠ some (chr '.') := fun hc => (hrest.head hc).2.1 rfl
  cases h with
  | int hds hlength =>
      refine ⟨offset + t.length, ?_⟩
      have hparts := readUnsigned_of_parts (f := []) (wholeDigits_append hds hrest.noDigit) hds.1.1
        .none (fractionDigits_append .none hrest.noDigit fun _ => hpoint) negative start offset
      rw [List.nil_append] at hparts
      rw [hparts, hrest.exponentPart?_eq]
      simp only [if_true, if_neg (Nat.not_lt.mpr hlength)]
  | @fraction ds f fs hds hf hne =>
      have hstop : NoDigit (f ++ rest) := by
        cases hf with
        | none =>
            exact hrest.noDigit
        | digits =>
            exact noDigit_cons (by decide) _
      have hparts := readUnsigned_of_parts (wholeDigits_append hds hstop) hds.1.1 hf
        (fractionDigits_append hf hrest.noDigit fun _ => hpoint) negative start offset
      refine ⟨offset + ds.length + f.length, ?_⟩
      rw [List.append_assoc, hparts, hrest.exponentPart?_eq]
      simp only [hf.eq_nil_iff, hne, if_false]
  | @exponent ds f fs x e hds hf hx =>
      have hletter : NoDigit (x ++ rest) ∧ (x ++ rest).head? ≠ some (chr '.') := by
        have hall : ∀ c, c = chr 'e' ∨ c = chr 'E' → c.isDigit = false ∧ c ≠ chr '.' := by
          rintro c (rfl | rfl) <;> decide
        cases hx with
        | unsigned he =>
            exact ⟨noDigit_cons (hall _ he).1 _, fun h => (hall _ he).2 (Option.some.inj h)⟩
        | plus he =>
            exact ⟨noDigit_cons (hall _ he).1 _, fun h => (hall _ he).2 (Option.some.inj h)⟩
        | minus he =>
            exact ⟨noDigit_cons (hall _ he).1 _, fun h => (hall _ he).2 (Option.some.inj h)⟩
      have hstop : NoDigit (f ++ (x ++ rest)) := by
        cases hf with
        | none =>
            exact hletter.1
        | digits =>
            exact noDigit_cons (by decide) _
      have hparts := readUnsigned_of_parts (wholeDigits_append hds hstop) hds.1.1 hf
        (fractionDigits_append hf hletter.1 fun _ => hletter.2) negative start offset
      refine ⟨offset + ds.length + f.length + x.length, ?_⟩
      rw [List.append_assoc, List.append_assoc, hparts, exponentPart?_append hx hrest.noDigit]
      simp only [List.drop_left]

theorem isUnsigned_of_readUnsigned
    {negative : Bool}
    {start offset : Nat}
    {t : Text}
    {v : Json}
    {stop : Cursor}
    (h : readUnsigned negative start offset t = .ok (v, stop)) :
    ∃ u, t = u ++ stop.rest ∧ IsUnsigned negative u v := by
  have hne : wholeDigits t ≠ [] := by
    intro hnil
    rw [readUnsigned, if_pos hnil] at h
    cases h
  obtain ⟨more, hmore⟩ := isPrefix_wholeDigits t
  obtain ⟨f, rest, hsplit, hf⟩ := exists_isFraction more
  have hds := isWhole_wholeDigits hne
  generalize hwhole : wholeDigits t = ds at hmore hne hds
  generalize hfs : fractionDigits more = fs at hf
  subst hmore
  subst hsplit
  rw [readUnsigned_of_parts hwhole hne hf hfs] at h
  split at h
  · next e length hexponent =>
    cases h
    obtain ⟨x, rest, rfl, rfl, hx⟩ := isExponent_of_exponentPart? hexponent
    refine ⟨_, ?_, .exponent hds hf hx⟩
    simp only [List.drop_left, List.append_assoc]
  · split at h
    · next hnil =>
      split at h
      · cases h
      · next hlong =>
        cases h
        exact ⟨ds, rfl, .int hds (Nat.le_of_not_lt hlong)⟩
    · next hnil =>
      cases h
      exact ⟨_, (List.append_assoc ..).symm, .fraction hds hf (mt hf.eq_nil_iff.mpr hnil)⟩

/-- A numeral begins with a digit. -/
theorem IsUnsigned.exists_digit
    {negative : Bool}
    {t : Text}
    {v : Json}
    (h : IsUnsigned negative t v) :
    ∃ d rest, t = d :: rest ∧ d.isDigit = true := by
  have hhead : ∀ {ds : Text} (rest : Text), IsWhole ds →
      ∃ d more, ds ++ rest = d :: more ∧ d.isDigit = true := by
    intro ds rest hds
    obtain ⟨d, more, rfl⟩ := List.exists_cons_of_ne_nil hds.1.1
    exact ⟨d, more ++ rest, rfl, hds.1.2 d List.mem_cons_self⟩
  cases h with
  | int hds =>
      simpa using hhead [] hds
  | fraction hds =>
      exact hhead _ hds
  | exponent hds =>
      exact hhead _ hds

theorem IsNumber.readNumber_eq
    {t rest : Text}
    {v : Json}
    (h : IsNumber t v)
    (hrest : Ends rest)
    (offset : Nat) :
    ∃ stop, readNumber ⟨offset, t ++ rest⟩ = .ok (v, ⟨stop, rest⟩) := by
  cases h with
  | unsigned h =>
      obtain ⟨d, more, rfl, hd⟩ := h.exists_digit
      obtain ⟨stop, hstop⟩ := h.readUnsigned_eq hrest offset offset
      have hsign : d ≠ chr '-' := by
        rintro rfl
        cases hd
      exact ⟨stop, (if_neg hsign).trans hstop⟩
  | negative h =>
      obtain ⟨stop, hstop⟩ := h.readUnsigned_eq hrest offset (offset + 1)
      refine ⟨stop, ?_⟩
      rw [readNumber]
      exact (if_pos rfl).trans hstop

theorem isNumber_of_readNumber
    {c stop : Cursor}
    {v : Json}
    (h : readNumber c = .ok (v, stop)) :
    ∃ u, c.rest = u ++ stop.rest ∧ IsNumber u v := by
  rw [readNumber] at h
  split at h
  · cases h
  · next s rest hrest =>
    split_ifs at h with hsign
    · obtain ⟨u, rfl, hu⟩ := isUnsigned_of_readUnsigned h
      exact ⟨chr '-' :: u, by rw [hrest, hsign]; rfl, .negative hu⟩
    · obtain ⟨u, heq, hu⟩ := isUnsigned_of_readUnsigned h
      exact ⟨u, heq, .unsigned hu⟩

end Json

end Keybox

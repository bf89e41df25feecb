import Keybox.Proofs.Text.Occurrence

/-!
# Payloads in quoted texts

A quoted text shows most code points as themselves and some by an escape, and an escape can end with
a digit of Base58: a line feed becomes a backslash and the letter `n`. So a quoted text can show a
payload that the text itself lacks, and what is asked of a text that is going to be quoted is that
its quoted form lacks the payload.

**Results.** Whether a quoted text shows a payload does not hang on the quote. What is shown of a
part of a text is a part of what is shown of the text, and a text put together at a slash or a point
shows a payload only if one of the parts does.
-/

namespace Keybox

namespace Text

/-- The code points of a text as they stand between quotes. -/
def escaped
    (quote : CodePoint)
    (t : Text) : Text :=
  t.flatMap (CodePoint.quotedWith quote)

theorem escaped_append
    (quote : CodePoint)
    (s t : Text) :
    escaped quote (s ++ t) = escaped quote s ++ escaped quote t :=
  List.flatMap_append

theorem escaped_cons
    (quote c : CodePoint)
    (t : Text) :
    escaped quote (c :: t) = CodePoint.quotedWith quote c ++ escaped quote t :=
  List.flatMap_cons

theorem escaped_infix
    {s t : Text}
    (h : s <:+: t)
    (quote : CodePoint) :
    escaped quote s <:+: escaped quote t := by
  obtain ⟨before, after, rfl⟩ := h
  rw [escaped_append, escaped_append]
  exact List.infix_append _ _ _

/-- Code points that are shown as themselves. -/
theorem escaped_eq_self
    {quote : CodePoint}
    {t : Text}
    (h : ∀ c ∈ t, CodePoint.quotedWith quote c = [c]) :
    escaped quote t = t := by
  induction t with
  | nil =>
      rfl
  | cons c rest ih =>
      rw [escaped_cons, h c List.mem_cons_self, ih fun d hd => h d (List.mem_cons_of_mem c hd)]
      rfl

/-- The two quotes that a text can be shown in. -/
def IsQuote
    (c : CodePoint) : Prop :=
  c = chr '\'' ∨ c = chr '"'

theorem isQuote_quoteFor
    (t : Text) :
    IsQuote t.quoteFor := by
  rw [quoteFor]
  split
  · exact Or.inr rfl
  · exact Or.inl rfl

end Text

namespace Base58

open Text (IsQuote escaped escaped_cons)

variable {quote quote' : CodePoint}

/-- A quote is shown in one of two ways, both of which keep apart what stands around it. -/
theorem isFence_quotedWith
    (hquote : IsQuote quote)
    {c : CodePoint}
    (hc : IsQuote c) :
    isFence (CodePoint.quotedWith quote c) = true := by
  rcases hquote with rfl | rfl <;> rcases hc with rfl | rfl <;> decide

/-- All other code points are shown in one way, whatever the quote. -/
theorem quotedWith_eq
    (hquote : IsQuote quote)
    (hquote' : IsQuote quote')
    {c : CodePoint}
    (hc : ¬ IsQuote c) :
    CodePoint.quotedWith quote c = CodePoint.quotedWith quote' c := by
  have hne : ∀ {q}, IsQuote q → c ≠ q := by
    rintro q hq rfl
    exact hc hq
  simp only [CodePoint.quotedWith, hne hquote, hne hquote', false_or]

namespace IsPayload

variable {s : Text}

theorem lacks_of_infix
    {t u : Text}
    (h : t <:+: u)
    (hu : u.Lacks s) :
    t.Lacks s :=
  fun hin => hu (hin.trans h)

/-- Whether a text shows a payload between quotes does not hang on the quotes. -/
theorem lacks_escaped_congr
    (hs : IsPayload s)
    (hquote : IsQuote quote)
    (hquote' : IsQuote quote')
    {t : Text}
    (h : (escaped quote t).Lacks s) :
    (escaped quote' t).Lacks s := by
  -- A payload can begin in what is shown before a code point, so that is carried along.
  have hafter : ∀ u : Text, Text.Lacks (u ++ escaped quote t) s →
      Text.Lacks (u ++ escaped quote' t) s := by
    clear h
    induction t with
    | nil =>
        exact fun u h => h
    | cons c rest ih =>
        intro u h
        rw [escaped_cons] at h ⊢
        by_cases hc : IsQuote c
        · have hu : u.Lacks s := lacks_of_infix (List.prefix_append u _).isInfix h
          have hrest : (escaped quote rest).Lacks s := by
            rw [← List.append_assoc] at h
            exact lacks_of_infix (List.suffix_append _ _).isInfix h
          exact hs.lacks_append_fence_append (isFence_quotedWith hquote' hc) hu (ih [] hrest)
        · rw [quotedWith_eq hquote' hquote hc, ← List.append_assoc]
          rw [← List.append_assoc] at h
          exact ih _ h
  exact hafter [] h

/-- A quoted text shows a payload only between its quotes. -/
theorem lacks_quoted_iff
    (hs : IsPayload s)
    (hquote : IsQuote quote)
    (t : Text) :
    t.quoted.Lacks s ↔ (escaped quote t).Lacks s := by
  have hown := Text.isQuote_quoteFor t
  have hquoted : t.quoted = [t.quoteFor] ++ (escaped t.quoteFor t ++ [t.quoteFor]) := rfl
  rw [hquoted]
  constructor
  · intro h
    apply hs.lacks_escaped_congr hown hquote
    exact lacks_of_infix (List.infix_append _ _ _) ((List.append_assoc _ _ _).symm ▸ h)
  · intro h
    have hends : isOpening [t.quoteFor] = true ∧ isClosing [t.quoteFor] = true := by
      rcases hown with hq | hq <;> rw [hq] <;> decide
    exact hs.lacks_opening_append hends.1
      (hs.lacks_append_closing hends.2 (hs.lacks_escaped_congr hquote hown h))

end IsPayload

end Base58

end Keybox

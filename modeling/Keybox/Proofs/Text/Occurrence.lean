import Keybox.Proofs.KeyText
import Keybox.Text.Quoted

/-!
# Where a key's payload can occur

The Base58 text of a private key is long and made of digits only. A text that is put together from
parts with something else than digits between them shows such a payload only if one of its parts
does, and no short text shows it.
-/

namespace Keybox

namespace Text

/-- A text that does not show another one anywhere. -/
def Lacks
    (t secret : Text) : Prop :=
  ¬ secret <:+: t

theorem infix_append_cons_iff
    {s u v : Text}
    {d : CodePoint}
    (hs : s ≠ [])
    (hd : d ∉ s) :
    s <:+: u ++ d :: v ↔ s <:+: u ∨ s <:+: v := by
  constructor
  · intro h
    rcases List.infix_append_iff.mp h with h | h | ⟨l₁, l₂, rfl, hsuffix, hprefix⟩
    · exact Or.inl h
    · rcases List.infix_cons_iff.mp h with h | h
      · obtain ⟨c, s, rfl⟩ := List.exists_cons_of_ne_nil hs
        obtain ⟨rfl, -⟩ := List.cons_prefix_cons.mp h
        exact absurd (List.mem_cons_self) hd
      · exact Or.inr h
    · cases l₂ with
      | nil =>
          rw [List.append_nil]
          exact Or.inl hsuffix.isInfix
      | cons c l₂ =>
          obtain ⟨rfl, -⟩ := List.cons_prefix_cons.mp hprefix
          exact absurd (by simp) hd
  · rintro (h | h)
    · exact List.infix_append_of_infix_left h
    · exact List.infix_append_of_infix_right (List.infix_cons h)

theorem isInfix_dropEndWhile
    (p : CodePoint → Bool)
    (t : Text) :
    dropEndWhile p t <:+: t := by
  rw [← List.reverse_infix, dropEndWhile, List.reverse_reverse]
  exact (List.dropWhile_suffix p).isInfix

/-- What is left between the blanks at its ends occurs in a text. -/
theorem isInfix_trim
    (t : Text) :
    trim t <:+: t :=
  (isInfix_dropEndWhile _ _).trans (List.dropWhile_suffix _).isInfix

end Text

namespace Base58

/-- Whether a code point is a digit. -/
def isDigit (c : CodePoint) : Bool :=
  (valueOf? c).isSome

theorem isDigit_of_mem_encode
    {bytes : Bytes}
    {c : CodePoint}
    (hc : c ∈ encode bytes) :
    isDigit c = true := by
  obtain ⟨n, hn, rfl⟩ := exists_digit_of_mem_encode hc
  rw [isDigit, valueOf?_digit hn]
  rfl

/-- The text of bytes is at least as long as they are: a digit says less than a byte. -/
theorem length_le_length_encode
    (bytes : Bytes) :
    bytes.length ≤ (encode bytes).length := by
  have hdigits : (bytes.dropWhile (· = 0)).length ≤
      (Numeral.digits 58 (by decide)
        (Numeral.value 256 ((bytes.dropWhile (· = 0)).map UInt8.toNat))).length := by
    cases hrest : bytes.dropWhile (· = 0) with
    | nil =>
        exact Nat.zero_le _
    | cons b rest =>
        have hhead : ((b :: rest).map UInt8.toNat).head? ≠ some 0 := by
          rw [← hrest]
          exact head?_map_toNat_ne_zero (head?_dropWhile_ne 0 bytes)
        have hbase : 1 < 256 := by decide
        have hnumeral := Numeral.digits_value hbase _
          (map_toNat_lt (b :: rest)) hhead
        have hlength := Numeral.length_digits hbase
          (Numeral.value 256 ((b :: rest).map UInt8.toNat))
        rw [hnumeral, List.length_map] at hlength
        have hlow : 256 ^ rest.length ≤ Numeral.value 256 ((b :: rest).map UInt8.toNat) := by
          rw [← Nat.lt_digits_length_iff (by decide), ← hlength]
          simp
        rw [Numeral.length_digits, List.length_cons, Nat.succ_le_iff,
          Nat.lt_digits_length_iff (by decide)]
        exact (Nat.pow_le_pow_left (by decide) rest.length).trans hlow
  have hsplit := congrArg List.length
    (List.takeWhile_append_dropWhile (p := (decide <| · = (0 : UInt8))) (l := bytes))
  rw [List.length_append] at hsplit
  rw [encode, List.length_append, List.length_replicate, List.length_map]
  omega

/-- Three digits say more than two bytes. -/
theorem pow_256_le
    (n : Nat) :
    256 ^ n ≤ 58 ^ (n + (n + 1) / 2) := by
  obtain ⟨m, rfl | rfl⟩ := n.even_or_odd'
  · have hexponent : 2 * m + (2 * m + 1) / 2 = 3 * m := by omega
    rw [hexponent, pow_mul, pow_mul]
    exact Nat.pow_le_pow_left (by decide) m
  · have hexponent : 2 * m + 1 + (2 * m + 1 + 1) / 2 = 3 * m + 2 := by omega
    rw [hexponent, pow_add, pow_add, pow_mul, pow_mul]
    exact Nat.mul_le_mul (Nat.pow_le_pow_left (by decide) m) (by decide)

/-- The text of bytes is at most half again as long as they are. -/
theorem length_encode_le
    (bytes : Bytes) :
    (encode bytes).length ≤ bytes.length + (bytes.length + 1) / 2 := by
  have hvalue : Numeral.value 256 ((bytes.dropWhile (· = 0)).map UInt8.toNat) <
      58 ^ ((bytes.dropWhile (· = 0)).length + ((bytes.dropWhile (· = 0)).length + 1) / 2) := by
    rw [Numeral.value_eq_ofDigits]
    have hlt := Nat.ofDigits_lt_base_pow_length (b := 256)
      (l := ((bytes.dropWhile (· = 0)).map UInt8.toNat).reverse) (by decide)
      (by simpa using map_toNat_lt (bytes.dropWhile (· = 0)))
    rw [List.length_reverse, List.length_map] at hlt
    exact hlt.trans_le (pow_256_le _)
  have hdigits := Nat.digits_length_le_iff (b := 58) (by decide) _ |>.mpr hvalue
  have hsplit := congrArg List.length
    (List.takeWhile_append_dropWhile (p := (decide <| · = (0 : UInt8))) (l := bytes))
  rw [List.length_append] at hsplit
  rw [encode, List.length_append, List.length_replicate, List.length_map, Numeral.length_digits]
  omega

/-- Whether a text is shorter than the payload of a private key. -/
def isShort (l : Text) : Bool :=
  decide (l.length < 64)

/-- A short text after which a payload can only begin anew. -/
def isOpening (l : Text) : Bool :=
  isShort l && l.getLast?.any fun c => !isDigit c

/-- A short text before which a payload must have come to its end. -/
def isClosing (l : Text) : Bool :=
  isShort l && l.head?.any fun c => !isDigit c

/-- A short text that keeps the digits before it apart from those after it. -/
def isFence (l : Text) : Bool :=
  isOpening l && isClosing l

/-- A long text of digits, as the payload of a private key is. -/
structure IsPayload
    (s : Text) : Prop where
  digits : ∀ c ∈ s, isDigit c = true
  length : 64 ≤ s.length

theorem isPayload_encode
    {key : Bytes}
    (hkey : 64 ≤ key.length) :
    IsPayload (encode key) :=
  ⟨fun _ hc => isDigit_of_mem_encode hc, hkey.trans (length_le_length_encode key)⟩

namespace IsPayload

variable {s : Text}

theorem ne_nil
    (hs : IsPayload s) :
    s ≠ [] := by
  rintro rfl
  exact absurd hs.length (by decide)

theorem notMem
    (hs : IsPayload s)
    {d : CodePoint}
    (hd : isDigit d = false) :
    d ∉ s := by
  intro hmem
  rw [hs.digits d hmem] at hd
  cases hd

theorem lacks_of_length
    (hs : IsPayload s)
    {t : Text}
    (ht : t.length < 64) :
    t.Lacks s := by
  intro h
  exact absurd (h.length_le) (by have := hs.length; omega)

theorem lacks_append_cons
    (hs : IsPayload s)
    {u v : Text}
    {d : CodePoint}
    (hd : isDigit d = false)
    (hu : u.Lacks s)
    (hv : v.Lacks s) :
    Text.Lacks (u ++ d :: v) s := by
  intro h
  rcases (Text.infix_append_cons_iff hs.ne_nil (hs.notMem hd)).mp h with h | h
  · exact hu h
  · exact hv h

theorem lacks_of_isShort
    (hs : IsPayload s)
    {l : Text}
    (hl : isShort l = true) :
    l.Lacks s :=
  hs.lacks_of_length (of_decide_eq_true hl)

theorem lacks_append_closing
    (hs : IsPayload s)
    {u l : Text}
    (hl : isClosing l = true)
    (hu : u.Lacks s) :
    Text.Lacks (u ++ l) s := by
  rw [isClosing, Bool.and_eq_true, isShort, decide_eq_true_eq] at hl
  obtain ⟨hlength, hhead⟩ := hl
  cases l with
  | nil =>
      cases hhead
  | cons d m =>
      have hd : isDigit d = false := by simpa using hhead
      have hm : m.length < 64 := by
        rw [List.length_cons] at hlength
        omega
      exact hs.lacks_append_cons hd hu (hs.lacks_of_length hm)

theorem lacks_opening_append
    (hs : IsPayload s)
    {l v : Text}
    (hl : isOpening l = true)
    (hv : v.Lacks s) :
    Text.Lacks (l ++ v) s := by
  rw [isOpening, Bool.and_eq_true, isShort, decide_eq_true_eq] at hl
  obtain ⟨hlength, hlast⟩ := hl
  rcases List.eq_nil_or_concat l with rfl | ⟨m, d, rfl⟩
  · cases hlast
  · rw [List.concat_eq_append] at hlength hlast ⊢
    have hd : isDigit d = false := by simpa using hlast
    have hm : m.length < 64 := by
      rw [List.length_append] at hlength
      omega
    rw [List.append_assoc]
    exact hs.lacks_append_cons hd (hs.lacks_of_length hm) hv

/-- A fence keeps the texts on its two sides apart. -/
theorem lacks_append_fence_append
    (hs : IsPayload s)
    {u l v : Text}
    (hl : isFence l = true)
    (hu : u.Lacks s)
    (hv : v.Lacks s) :
    Text.Lacks (u ++ (l ++ v)) s := by
  rw [isFence, Bool.and_eq_true] at hl
  obtain ⟨hopening, hclosing⟩ := hl
  cases l with
  | nil =>
      cases hclosing
  | cons d m =>
      rw [isClosing, Bool.and_eq_true] at hclosing
      have hd : isDigit d = false := by simpa using hclosing.2
      have hrest : Text.Lacks (d :: m ++ v) s := hs.lacks_opening_append hopening hv
      have hsplit := Text.infix_append_cons_iff (u := u) (v := m ++ v) hs.ne_nil (hs.notMem hd)
      intro h
      rcases hsplit.mp h with h | h
      · exact hu h
      · exact hrest (List.infix_cons h)

end IsPayload

end Base58

end Keybox

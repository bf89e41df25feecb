import Keybox.Base58
import Keybox.Proofs.Numeral

/-!
# Base58 is a bijection

Writing bytes in Base58 and reading the text back gives the bytes, and a text that can be read is
the one that its bytes are written as. The leading zero bytes and the leading zero digits are
counted against each other, and what follows them is a numeral that does not begin with a zero on
either side.
-/

namespace Keybox

/-! ## A run of one value at the front of a list -/

section LeadingRun

variable {α : Type} {p : α → Bool} {a : α}

theorem takeWhile_replicate_append
    (ha : p a = true)
    (n : Nat)
    {l : List α}
    (hl : ∀ b, l.head? = some b → p b = false) :
    (List.replicate n a ++ l).takeWhile p = List.replicate n a := by
  rw [List.takeWhile_append_of_pos (by
    intro b hb
    rwa [List.eq_of_mem_replicate hb])]
  cases l with
  | nil =>
      simp
  | cons b l =>
      simp [hl b rfl]

theorem dropWhile_replicate_append
    (ha : p a = true)
    (n : Nat)
    {l : List α}
    (hl : ∀ b, l.head? = some b → p b = false) :
    (List.replicate n a ++ l).dropWhile p = l := by
  rw [List.dropWhile_append_of_pos (by
    intro b hb
    rwa [List.eq_of_mem_replicate hb])]
  cases l with
  | nil =>
      simp
  | cons b l =>
      simp [hl b rfl]

/-- A list is a run of a value and what follows it. -/
theorem replicate_append_dropWhile
    [DecidableEq α]
    (a : α)
    (l : List α) :
    List.replicate (l.takeWhile (· = a)).length a ++ l.dropWhile (· = a) = l := by
  have hrun : l.takeWhile (· = a) = List.replicate (l.takeWhile (· = a)).length a := by
    rw [List.eq_replicate_iff]
    refine ⟨rfl, ?_⟩
    intro b hb
    simpa using List.all_eq_true.mp List.all_takeWhile b hb
  rw [← hrun, List.takeWhile_append_dropWhile]

theorem head?_dropWhile_ne
    [DecidableEq α]
    (a : α)
    (l : List α) :
    (l.dropWhile (· = a)).head? ≠ some a := by
  intro h
  have := List.head?_dropWhile_not (· = a) l
  simp [h] at this

end LeadingRun

namespace Base58

/-! ## Digits -/

theorem valueOf?_digit_all : ∀ n < 58, valueOf? (digit n) = some n := by
  decide +kernel

theorem valueOf?_digit
    {n : Nat}
    (hn : n < 58) :
    valueOf? (digit n) = some n :=
  valueOf?_digit_all n hn

theorem digit_of_valueOf?
    {c : CodePoint}
    {n : Nat}
    (h : valueOf? c = some n) :
    n < 58 ∧ digit n = c := by
  obtain ⟨hlen, hchr, -⟩ := List.findIdx?_eq_some_iff_getElem.mp h
  refine ⟨hlen, ?_⟩
  rw [digit, List.getD_eq_getElem?_getD, List.getElem?_eq_getElem hlen, Option.getD_some]
  simpa using hchr

theorem digit_eq_zeroDigit_iff
    {n : Nat}
    (hn : n < 58) :
    digit n = zeroDigit ↔ n = 0 := by
  constructor
  · intro h
    have hvalue : valueOf? (digit n) = valueOf? (digit 0) := by rw [h]; rfl
    rw [valueOf?_digit hn, valueOf?_digit (by omega)] at hvalue
    exact Option.some.inj hvalue
  · rintro rfl
    rfl

theorem values_map_digit
    (ns : List Nat)
    (hlt : ∀ n ∈ ns, n < 58) :
    values (ns.map digit) = .ok ns := by
  induction ns with
  | nil =>
      rfl
  | cons n ns ih =>
      rw [List.map_cons, values, valueOf?_digit (hlt n (by simp))]
      rw [ih fun m hm => hlt m (List.mem_cons_of_mem n hm)]
      rfl

/-- The values of a text are digits, and these make up the text. -/
theorem map_digit_of_values
    {t : Text}
    {ns : List Nat}
    (h : values t = .ok ns) :
    (∀ n ∈ ns, n < 58) ∧ ns.map digit = t := by
  induction t generalizing ns with
  | nil =>
      cases h
      simp
  | cons c t ih =>
      rw [values] at h
      cases hc : valueOf? c with
      | none =>
          simp [hc] at h
      | some n =>
          cases ht : values t with
          | error d =>
              simp [hc, ht] at h
          | ok ms =>
              simp only [hc, ht] at h
              cases h
              obtain ⟨hn, hdigit⟩ := digit_of_valueOf? hc
              obtain ⟨hlt, hmap⟩ := ih ht
              refine ⟨?_, by simp [hdigit, hmap]⟩
              intro m hm
              rcases List.mem_cons.mp hm with rfl | hm
              · exact hn
              · exact hlt m hm

/-! ## Bytes as numbers -/

theorem map_toNat_lt
    (bytes : Bytes) :
    ∀ n ∈ bytes.map UInt8.toNat, n < 256 := by
  intro n hn
  obtain ⟨b, -, rfl⟩ := List.mem_map.mp hn
  exact b.toNat_lt

theorem map_ofNat_map_toNat
    (bytes : Bytes) :
    (bytes.map UInt8.toNat).map UInt8.ofNat = bytes := by
  rw [List.map_map]
  exact (List.map_congr_left fun b _ => UInt8.ofNat_toNat).trans (List.map_id bytes)

theorem map_toNat_map_ofNat
    (ns : List Nat)
    (hlt : ∀ n ∈ ns, n < 256) :
    (ns.map UInt8.ofNat).map UInt8.toNat = ns := by
  rw [List.map_map]
  refine (List.map_congr_left fun n hn => ?_).trans (List.map_id ns)
  simpa using Nat.mod_eq_of_lt (hlt n hn)

theorem head?_map_toNat_ne_zero
    {bytes : Bytes}
    (h : bytes.head? ≠ some 0) :
    (bytes.map UInt8.toNat).head? ≠ some 0 := by
  rw [List.head?_map]
  intro hzero
  obtain ⟨b, hb, hb0⟩ := Option.map_eq_some_iff.mp hzero
  exact h (by rw [hb, UInt8.toNat_inj.mp (hb0.trans UInt8.toNat_zero.symm)])

/-! ## The two directions -/

/-- What follows the leading zero digits does not begin with one. -/
theorem head?_map_digit
    {ns : List Nat}
    (hlt : ∀ n ∈ ns, n < 58)
    (hhead : ns.head? ≠ some 0) :
    ∀ c, (ns.map digit).head? = some c → decide (c = zeroDigit) = false := by
  intro c hc
  rw [List.head?_map] at hc
  obtain ⟨n, hn, rfl⟩ := Option.map_eq_some_iff.mp hc
  rw [decide_eq_false_iff_not, digit_eq_zeroDigit_iff (hlt n (List.mem_of_head? hn))]
  rintro rfl
  exact hhead hn

/-- A text of leading zero digits and a numeral is read as leading zero bytes and the bytes of the
numeral. -/
theorem decode_replicate_append
    (zeros : Nat)
    (ns : List Nat)
    (hlt : ∀ n ∈ ns, n < 58)
    (hhead : ns.head? ≠ some 0) :
    decode (List.replicate zeros zeroDigit ++ ns.map digit) =
      .ok (List.replicate zeros 0 ++
        (Numeral.digits 256 (by decide) (Numeral.value 58 ns)).map UInt8.ofNat) := by
  have hnext := head?_map_digit hlt hhead
  rw [decode, dropWhile_replicate_append (by simp) zeros hnext,
    takeWhile_replicate_append (by simp) zeros hnext, values_map_digit ns hlt,
    List.length_replicate]

/-- Reading what was written gives the bytes back. -/
theorem decode_encode
    (bytes : Bytes) :
    decode (encode bytes) = .ok bytes := by
  rw [encode, decode_replicate_append _ _
    (fun n hn => Numeral.lt_of_mem_digits (by decide) hn)
    (Numeral.head?_digits_ne_zero (by decide) _)]
  rw [Numeral.value_digits, Numeral.digits_value (by decide) _ (map_toNat_lt _)
    (head?_map_toNat_ne_zero (head?_dropWhile_ne 0 bytes)), map_ofNat_map_toNat,
    replicate_append_dropWhile]

theorem encode_replicate_append
    (zeros : Nat)
    (rest : Bytes)
    (hhead : rest.head? ≠ some 0) :
    encode (List.replicate zeros 0 ++ rest) =
      List.replicate zeros zeroDigit ++
        (Numeral.digits 58 (by decide) (Numeral.value 256 (rest.map UInt8.toNat))).map digit := by
  have hnext : ∀ b, rest.head? = some b → decide (b = 0) = false := by
    intro b hb
    rw [decide_eq_false_iff_not]
    rintro rfl
    exact hhead hb
  rw [encode, dropWhile_replicate_append (by simp) zeros hnext,
    takeWhile_replicate_append (by simp) zeros hnext, List.length_replicate]

/-- A text that can be read is what its bytes are written as. -/
theorem encode_of_decode
    {t : Text}
    {bytes : Bytes}
    (h : decode t = .ok bytes) :
    encode bytes = t := by
  rw [decode] at h
  cases hv : values (t.dropWhile (· = zeroDigit)) with
  | error c =>
      simp [hv] at h
  | ok ns =>
      simp only [hv] at h
      cases h
      obtain ⟨hlt, hmap⟩ := map_digit_of_values hv
      have hhead : ns.head? ≠ some 0 := by
        intro hzero
        have hnext := head?_dropWhile_ne zeroDigit t
        rw [← hmap, List.head?_map, hzero] at hnext
        exact hnext rfl
      have hdigits : ∀ n ∈ Numeral.digits 256 (by decide) (Numeral.value 58 ns), n < 256 :=
        fun n hn => Numeral.lt_of_mem_digits (by decide) hn
      have hnumber : ((Numeral.digits 256 (by decide) (Numeral.value 58 ns)).map
          UInt8.ofNat).head? ≠ some 0 := by
        rw [List.head?_map]
        intro hzero
        obtain ⟨n, hn, hn0⟩ := Option.map_eq_some_iff.mp hzero
        have hlt256 := hdigits n (List.mem_of_head? hn)
        have : n = 0 := by
          have := congrArg UInt8.toNat hn0
          simpa [Nat.mod_eq_of_lt hlt256] using this
        exact Numeral.head?_digits_ne_zero (by decide) _ (this ▸ hn)
      rw [encode_replicate_append _ _ hnumber, map_toNat_map_ofNat _ hdigits,
        Numeral.value_digits, Numeral.digits_value (by decide) ns hlt hhead, hmap,
        replicate_append_dropWhile]

theorem encode_injective : Function.Injective encode := by
  intro a b h
  have := decode_encode a
  rw [h, decode_encode] at this
  exact (Except.ok.inj this).symm

end Base58

end Keybox

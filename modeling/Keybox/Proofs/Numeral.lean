import Keybox.Numeral
import Keybox.Text
import Mathlib.Data.Nat.Digits.Lemmas

/-!
# Numerals and the numbers they stand for

`Numeral.digits` and `Numeral.value` are inverse to one another on numerals that do not begin
with a zero. Both are the library's positional numerals read from the other end, so the laws come
from there.
-/

namespace Keybox

namespace Numeral

variable {base : Nat}

theorem digitsOnto_eq_append
    (base_gt : 1 < base)
    (n : Nat)
    (tail : List Nat) :
    digitsOnto base base_gt n tail = (base.digits n).reverse ++ tail := by
  fun_induction digitsOnto base base_gt n tail with
  | case1 tail =>
      simp
  | case2 n tail hn ih =>
      rw [ih, Nat.digits_def' base_gt (Nat.pos_of_ne_zero hn)]
      simp

/-- The digits are those of the library, most significant first. -/
theorem digits_eq_reverse
    (base_gt : 1 < base)
    (n : Nat) :
    digits base base_gt n = (base.digits n).reverse := by
  rw [digits, digitsOnto_eq_append, List.append_nil]

theorem value_eq_ofDigits
    (base : Nat)
    (ds : List Nat) :
    value base ds = Nat.ofDigits base ds.reverse := by
  rw [Nat.ofDigits_eq_foldr, List.foldr_reverse, value]
  congr 1
  funext n d
  simp [Nat.mul_comm, Nat.add_comm]

@[simp] theorem value_digits
    (base_gt : 1 < base)
    (n : Nat) :
    value base (digits base base_gt n) = n := by
  rw [value_eq_ofDigits, digits_eq_reverse, List.reverse_reverse, Nat.ofDigits_digits]

/-- A numeral that does not begin with a zero is the one of its value. -/
theorem digits_value
    (base_gt : 1 < base)
    (ds : List Nat)
    (hlt : ∀ d ∈ ds, d < base)
    (hhead : ds.head? ≠ some 0) :
    digits base base_gt (value base ds) = ds := by
  have hlast : ∀ h : ds.reverse ≠ [], ds.reverse.getLast h ≠ 0 := by
    intro h hzero
    have hne : ds ≠ [] := by simpa using h
    rw [List.getLast_reverse] at hzero
    exact hhead (by rw [List.head?_eq_some_head hne, hzero])
  rw [digits_eq_reverse, value_eq_ofDigits,
    Nat.digits_ofDigits base base_gt ds.reverse (by simpa using hlt) hlast,
    List.reverse_reverse]

theorem lt_of_mem_digits
    (base_gt : 1 < base)
    {n d : Nat}
    (hd : d ∈ digits base base_gt n) :
    d < base := by
  rw [digits_eq_reverse, List.mem_reverse] at hd
  exact Nat.digits_lt_base base_gt hd

theorem head?_digits_ne_zero
    (base_gt : 1 < base)
    (n : Nat) :
    (digits base base_gt n).head? ≠ some 0 := by
  rw [digits_eq_reverse, List.head?_reverse]
  intro h
  by_cases hn : n = 0
  · simp [hn] at h
  · rw [List.getLast?_eq_some_getLast (Nat.digits_ne_nil_iff_ne_zero.mpr hn)] at h
    exact Nat.getLast_digit_ne_zero base hn (Option.some.inj h)

theorem length_digits
    (base_gt : 1 < base)
    (n : Nat) :
    (digits base base_gt n).length = (base.digits n).length := by
  rw [digits_eq_reverse, List.length_reverse]

@[simp] theorem length_littleEndian
    (width n : Nat) :
    (littleEndian width n).length = width := by
  induction width generalizing n with
  | zero =>
      rfl
  | succ width ih =>
      simp [littleEndian, ih]

end Numeral

/-- A number below a power of ten has no more decimal digits than its exponent says. -/
theorem Text.length_ofNat_le
    {n k : Nat}
    (hk : 0 < k)
    (hn : n < 10 ^ k) :
    (Text.ofNat n).length ≤ k := by
  rwa [Text.ofNat, List.length_map, Nat.length_toDigits_le_iff (by decide) hk]

end Keybox

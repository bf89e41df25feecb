import Keybox.Proofs.Except
import Keybox.Text.Utf8

/-!
# UTF-8 is read as it was written

The well-formed sequences are exactly those that are written for the code points outside the
surrogates: what is written is a sequence of its code point, and a sequence is what is written for
its code point. A text without surrogates is therefore read back from its bytes, and all bytes that
are read are those of such a text.
-/

namespace Keybox

namespace Utf8

/-! ## Bytes by their values -/

theorem toNat_byte
    {n : Nat}
    (hn : n < 256) :
    (byte n).toNat = n := by
  rw [byte, UInt8.toNat_ofNat', Nat.mod_eq_of_lt hn]

theorem byte_eq
    {n : Nat}
    {b : UInt8}
    (h : n = b.toNat) :
    byte n = b := by
  rw [h, byte, UInt8.ofNat_toNat]

theorem eq_iff_toNat_eq
    (b c : UInt8) :
    b = c ↔ b.toNat = c.toNat :=
  UInt8.toNat_inj.symm

/-- The second byte of a sequence, by the values of the two bytes. -/
theorem seconds_eq_true_iff
    (b c : UInt8) :
    seconds b c = true ↔
      (0x80 ≤ c.toNat ∧ c.toNat < 0xC0) ∧
        (b.toNat = 0xE0 → 0xA0 ≤ c.toNat) ∧ (b.toNat = 0xED → c.toNat < 0xA0) ∧
          (b.toNat = 0xF0 → 0x90 ≤ c.toNat) ∧ (b.toNat = 0xF4 → c.toNat < 0x90) := by
  have hE0 : b = 0xE0 ↔ b.toNat = 0xE0 := eq_iff_toNat_eq b 0xE0
  have hED : b = 0xED ↔ b.toNat = 0xED := eq_iff_toNat_eq b 0xED
  have hF0 : b = 0xF0 ↔ b.toNat = 0xF0 := eq_iff_toNat_eq b 0xF0
  have hF4 : b = 0xF4 ↔ b.toNat = 0xF4 := eq_iff_toNat_eq b 0xF4
  simp only [seconds, continues, hE0, hED, hF0, hF4, Bool.and_eq_true, decide_eq_true_eq]
  split
  · simp only [decide_eq_true_eq]
    omega
  · split
    · simp only [decide_eq_true_eq]
      omega
    · split
      · simp only [decide_eq_true_eq]
        omega
      · split
        · simp only [decide_eq_true_eq]
          omega
        · simp only [and_true]
          omega

theorem continues_eq_true_iff
    (b : UInt8) :
    continues b = true ↔ 0x80 ≤ b.toNat ∧ b.toNat < 0xC0 := by
  rw [continues, decide_eq_true_eq]

theorem isSurrogate_eq_false_iff
    (c : CodePoint) :
    c.isSurrogate = false ↔ ¬ (0xD800 ≤ c.val ∧ c.val < 0xE000) := by
  rw [CodePoint.isSurrogate, decide_eq_false_iff_not]

theorem isSurrogate_of_isAscii
    {c : CodePoint}
    (hc : c.isAscii = true) :
    c.isSurrogate = false := by
  rw [CodePoint.isAscii, decide_eq_true_eq] at hc
  rw [isSurrogate_eq_false_iff]
  omega

/-! ## Sequences -/

/-- A well-formed sequence: a first byte, the bytes after it, the code point that the sequence
stands for, and how many of the bytes after the first belong to it. -/
inductive Sequence : UInt8 → Bytes → CodePoint → Nat → Prop
  | one
      {b : UInt8}
      (rest : Bytes)
      (hlead : lead b = .one) :
      Sequence b rest (Fin.ofNat _ b.toNat) 0
  | two
      {b c : UInt8}
      (rest : Bytes)
      (hlead : lead b = .two)
      (hsecond : seconds b c = true) :
      Sequence b (c :: rest) (point2 b c) 1
  | three
      {b c d : UInt8}
      (rest : Bytes)
      (hlead : lead b = .three)
      (hsecond : seconds b c = true)
      (hthird : continues d = true) :
      Sequence b (c :: d :: rest) (point3 b c d) 2
  | four
      {b c d e : UInt8}
      (rest : Bytes)
      (hlead : lead b = .four)
      (hsecond : seconds b c = true)
      (hthird : continues d = true)
      (hfourth : continues e = true) :
      Sequence b (c :: d :: e :: rest) (point4 b c d e) 3

theorem point?_eq_some_iff
    {b : UInt8}
    {rest : Bytes}
    {c : CodePoint}
    {k : Nat} :
    point? b rest = some (c, k) ↔ Sequence b rest c k := by
  constructor
  · intro h
    rw [point?.eq_def] at h
    split at h
    · next hlead =>
      cases h
      exact .one _ hlead
    · next hlead =>
      split at h
      · next hsecond =>
        cases h
        exact .two _ hlead hsecond
      · cases h
    · next hlead =>
      split at h
      · next hbytes =>
        rw [Bool.and_eq_true] at hbytes
        cases h
        exact .three _ hlead hbytes.1 hbytes.2
      · cases h
    · next hlead =>
      split at h
      · next hbytes =>
        rw [Bool.and_eq_true, Bool.and_eq_true] at hbytes
        cases h
        exact .four _ hlead hbytes.1.1 hbytes.1.2 hbytes.2
      · cases h
    · cases h
  · intro h
    cases h with
    | one rest hlead =>
        simp only [point?, hlead]
    | two rest hlead hsecond =>
        simp only [point?, hlead, hsecond, if_true]
    | three rest hlead hsecond hthird =>
        simp only [point?, hlead, hsecond, hthird, Bool.and_self, if_true]
    | four rest hlead hsecond hthird hfourth =>
        simp only [point?, hlead, hsecond, hthird, hfourth, Bool.and_self, if_true]

/-! ## From a code point to its sequence -/

section Written

variable {c : CodePoint}

theorem sequence_one
    (h1 : c.val < 0x80)
    (rest : Bytes) :
    Sequence (byte c.val) rest c 0 := by
  have hb := toNat_byte (n := c.val) (by omega)
  have hlead : lead (byte c.val) = .one := by
    rw [lead, hb, if_pos h1]
  have hpoint : Fin.ofNat _ (byte c.val).toNat = c := by
    rw [hb]
    exact Fin.ext (Nat.mod_eq_of_lt c.isLt)
  have hsequence := Sequence.one rest hlead
  rwa [hpoint] at hsequence

theorem sequence_two
    (h1 : ¬ c.val < 0x80)
    (h2 : c.val < 0x800)
    (rest : Bytes) :
    Sequence (byte (0xC0 + c.val / 0x40)) (byte (0x80 + c.val % 0x40) :: rest) c 1 := by
  have hb := toNat_byte (n := 0xC0 + c.val / 0x40) (by omega)
  have hd := toNat_byte (n := 0x80 + c.val % 0x40) (by omega)
  have hlead : lead (byte (0xC0 + c.val / 0x40)) = .two := by
    rw [lead, hb, if_neg (by omega), if_neg (by omega), if_pos (by omega)]
  have hsecond : seconds (byte (0xC0 + c.val / 0x40)) (byte (0x80 + c.val % 0x40)) = true := by
    rw [seconds_eq_true_iff, hb, hd]
    omega
  have hpoint : point2 (byte (0xC0 + c.val / 0x40)) (byte (0x80 + c.val % 0x40)) = c := by
    refine Fin.ext ?_
    simp only [point2, hb, hd, Fin.ofNat]
    omega
  have hsequence := Sequence.two rest hlead hsecond
  rwa [hpoint] at hsequence

theorem sequence_three
    (hscalar : ¬ (0xD800 ≤ c.val ∧ c.val < 0xE000))
    (h2 : ¬ c.val < 0x800)
    (h3 : c.val < 0x10000)
    (rest : Bytes) :
    Sequence (byte (0xE0 + c.val / 0x1000))
      (byte (0x80 + c.val / 0x40 % 0x40) :: byte (0x80 + c.val % 0x40) :: rest) c 2 := by
  have hb := toNat_byte (n := 0xE0 + c.val / 0x1000) (by omega)
  have hd := toNat_byte (n := 0x80 + c.val / 0x40 % 0x40) (by omega)
  have he := toNat_byte (n := 0x80 + c.val % 0x40) (by omega)
  have hlead : lead (byte (0xE0 + c.val / 0x1000)) = .three := by
    rw [lead, hb, if_neg (by omega), if_neg (by omega), if_neg (by omega), if_pos (by omega)]
  have hsecond :
      seconds (byte (0xE0 + c.val / 0x1000)) (byte (0x80 + c.val / 0x40 % 0x40)) = true := by
    rw [seconds_eq_true_iff, hb, hd]
    omega
  have hthird : continues (byte (0x80 + c.val % 0x40)) = true := by
    rw [continues_eq_true_iff, he]
    omega
  have hpoint : point3 (byte (0xE0 + c.val / 0x1000)) (byte (0x80 + c.val / 0x40 % 0x40))
      (byte (0x80 + c.val % 0x40)) = c := by
    refine Fin.ext ?_
    simp only [point3, hb, hd, he, Fin.ofNat]
    omega
  have hsequence := Sequence.three rest hlead hsecond hthird
  rwa [hpoint] at hsequence

/-- A value below the code space is put together again from the bits of its four bytes. -/
theorem four_parts
    (n : Nat)
    (hn : n < 0x110000) :
    ((0xF0 + n / 0x40000) % 0x08 * 0x40000 + (0x80 + n / 0x1000 % 0x40) % 0x40 * 0x1000 +
      (0x80 + n / 0x40 % 0x40) % 0x40 * 0x40 + (0x80 + n % 0x40) % 0x40) % 0x110000 = n := by
  have h1 : (0xF0 + n / 0x40000) % 0x08 = n / 0x40000 := by omega
  have h2 : (0x80 + n / 0x1000 % 0x40) % 0x40 = n / 0x1000 % 0x40 := by omega
  have h3 : (0x80 + n / 0x40 % 0x40) % 0x40 = n / 0x40 % 0x40 := by omega
  have h4 : (0x80 + n % 0x40) % 0x40 = n % 0x40 := by omega
  have h5 : n / 0x40000 * 0x40000 + n / 0x1000 % 0x40 * 0x1000 + n / 0x40 % 0x40 * 0x40 +
      n % 0x40 = n := by omega
  rw [h1, h2, h3, h4, h5, Nat.mod_eq_of_lt hn]

theorem sequence_four
    (h3 : ¬ c.val < 0x10000)
    (rest : Bytes) :
    Sequence (byte (0xF0 + c.val / 0x40000))
      (byte (0x80 + c.val / 0x1000 % 0x40) :: byte (0x80 + c.val / 0x40 % 0x40) ::
        byte (0x80 + c.val % 0x40) :: rest) c 3 := by
  have hmax : c.val < 0x110000 := c.isLt
  have hb := toNat_byte (n := 0xF0 + c.val / 0x40000) (by omega)
  have hd := toNat_byte (n := 0x80 + c.val / 0x1000 % 0x40) (by omega)
  have he := toNat_byte (n := 0x80 + c.val / 0x40 % 0x40) (by omega)
  have hf := toNat_byte (n := 0x80 + c.val % 0x40) (by omega)
  have hlead : lead (byte (0xF0 + c.val / 0x40000)) = .four := by
    rw [lead, hb, if_neg (by omega), if_neg (by omega), if_neg (by omega), if_neg (by omega),
      if_pos (by omega)]
  have hsecond :
      seconds (byte (0xF0 + c.val / 0x40000)) (byte (0x80 + c.val / 0x1000 % 0x40)) = true := by
    rw [seconds_eq_true_iff, hb, hd]
    omega
  have hthird : continues (byte (0x80 + c.val / 0x40 % 0x40)) = true := by
    rw [continues_eq_true_iff, he]
    omega
  have hfourth : continues (byte (0x80 + c.val % 0x40)) = true := by
    rw [continues_eq_true_iff, hf]
    omega
  have hpoint : point4 (byte (0xF0 + c.val / 0x40000)) (byte (0x80 + c.val / 0x1000 % 0x40))
      (byte (0x80 + c.val / 0x40 % 0x40)) (byte (0x80 + c.val % 0x40)) = c := by
    refine Fin.ext ?_
    simp only [point4, hb, hd, he, hf, Fin.ofNat, four_parts c.val hmax]
  have hsequence := Sequence.four rest hlead hsecond hthird hfourth
  rwa [hpoint] at hsequence

/-- The bytes of a code point outside the surrogates are its sequence, whatever follows them. -/
theorem exists_sequence_encodePoint
    (hc : c.isSurrogate = false)
    (rest : Bytes) :
    ∃ b bs, encodePoint c = b :: bs ∧ Sequence b (bs ++ rest) c bs.length := by
  rw [isSurrogate_eq_false_iff] at hc
  rw [encodePoint]
  split
  · next h1 => exact ⟨_, _, rfl, sequence_one h1 rest⟩
  · next h1 =>
    split
    · next h2 => exact ⟨_, _, rfl, sequence_two h1 h2 rest⟩
    · next h2 =>
      split
      · next h3 => exact ⟨_, _, rfl, sequence_three hc h2 h3 rest⟩
      · next h3 => exact ⟨_, _, rfl, sequence_four h3 rest⟩

end Written

/-! ## From a sequence to its code point -/

section Found

variable {b c d e : UInt8}

/-- The range of the first bytes of each kind. -/
theorem lead_range
    (b : UInt8) :
    (lead b = .one → b.toNat < 0x80) ∧
      (lead b = .two → 0xC2 ≤ b.toNat ∧ b.toNat < 0xE0) ∧
        (lead b = .three → 0xE0 ≤ b.toNat ∧ b.toNat < 0xF0) ∧
          (lead b = .four → 0xF0 ≤ b.toNat ∧ b.toNat < 0xF5) := by
  rw [lead]
  split
  · simpa
  · split
    · simp
    · split
      · simp
        omega
      · split
        · simp
          omega
        · split
          · simp
            omega
          · simp

theorem encodePoint_one
    (hlead : lead b = .one) :
    CodePoint.isSurrogate (Fin.ofNat 0x110000 b.toNat) = false ∧
      encodePoint (Fin.ofNat 0x110000 b.toNat) = [b] := by
  have hb := (lead_range b).1 hlead
  have hval : (Fin.ofNat 0x110000 b.toNat).val = b.toNat := Nat.mod_eq_of_lt (by omega)
  rw [isSurrogate_eq_false_iff, encodePoint, hval, if_pos hb, byte_eq rfl]
  exact ⟨by omega, rfl⟩

theorem encodePoint_two
    (hlead : lead b = .two)
    (hsecond : seconds b c = true) :
    (point2 b c).isSurrogate = false ∧ encodePoint (point2 b c) = [b, c] := by
  have hb := (lead_range b).2.1 hlead
  rw [seconds_eq_true_iff] at hsecond
  have hval : (point2 b c).val = (b.toNat - 0xC0) * 0x40 + (c.toNat - 0x80) := by
    simp only [point2, Fin.ofNat]
    omega
  rw [isSurrogate_eq_false_iff, encodePoint, hval, if_neg (by omega), if_pos (by omega)]
  refine ⟨by omega, ?_⟩
  rw [byte_eq (b := b) (by omega), byte_eq (b := c) (by omega)]

theorem encodePoint_three
    (hlead : lead b = .three)
    (hsecond : seconds b c = true)
    (hthird : continues d = true) :
    (point3 b c d).isSurrogate = false ∧ encodePoint (point3 b c d) = [b, c, d] := by
  have hb := (lead_range b).2.2.1 hlead
  rw [seconds_eq_true_iff] at hsecond
  rw [continues_eq_true_iff] at hthird
  have hval : (point3 b c d).val =
      (b.toNat - 0xE0) * 0x1000 + (c.toNat - 0x80) * 0x40 + (d.toNat - 0x80) := by
    simp only [point3, Fin.ofNat]
    omega
  rw [isSurrogate_eq_false_iff, encodePoint, hval, if_neg (by omega), if_neg (by omega),
    if_pos (by omega)]
  refine ⟨by omega, ?_⟩
  rw [byte_eq (b := b) (by omega), byte_eq (b := c) (by omega), byte_eq (b := d) (by omega)]

theorem encodePoint_four
    (hlead : lead b = .four)
    (hsecond : seconds b c = true)
    (hthird : continues d = true)
    (hfourth : continues e = true) :
    (point4 b c d e).isSurrogate = false ∧ encodePoint (point4 b c d e) = [b, c, d, e] := by
  have hb := (lead_range b).2.2.2 hlead
  rw [seconds_eq_true_iff] at hsecond
  rw [continues_eq_true_iff] at hthird hfourth
  have hval : (point4 b c d e).val =
      (b.toNat - 0xF0) * 0x40000 + (c.toNat - 0x80) * 0x1000 + (d.toNat - 0x80) * 0x40 +
        (e.toNat - 0x80) := by
    have h1 : b.toNat % 0x08 = b.toNat - 0xF0 := by omega
    have h2 : c.toNat % 0x40 = c.toNat - 0x80 := by omega
    have h3 : d.toNat % 0x40 = d.toNat - 0x80 := by omega
    have h4 : e.toNat % 0x40 = e.toNat - 0x80 := by omega
    simp only [point4, Fin.ofNat, h1, h2, h3, h4]
    exact Nat.mod_eq_of_lt (by omega)
  rw [isSurrogate_eq_false_iff, encodePoint, hval, if_neg (by omega), if_neg (by omega),
    if_neg (by omega)]
  refine ⟨by omega, ?_⟩
  rw [byte_eq (b := b) (by omega), byte_eq (b := c) (by omega), byte_eq (b := d) (by omega),
    byte_eq (b := e) (by omega)]

end Found

/-- A sequence is the one of its code point, which is no surrogate. -/
theorem Sequence.encodePoint_eq
    {b : UInt8}
    {rest : Bytes}
    {c : CodePoint}
    {k : Nat}
    (h : Sequence b rest c k) :
    c.isSurrogate = false ∧ k ≤ rest.length ∧ encodePoint c = b :: rest.take k := by
  cases h with
  | one _ hlead =>
      obtain ⟨hscalar, hbytes⟩ := encodePoint_one hlead
      exact ⟨hscalar, Nat.zero_le _, hbytes⟩
  | two rest hlead hsecond =>
      obtain ⟨hscalar, hbytes⟩ := encodePoint_two hlead hsecond
      exact ⟨hscalar, by simp, hbytes⟩
  | three rest hlead hsecond hthird =>
      obtain ⟨hscalar, hbytes⟩ := encodePoint_three hlead hsecond hthird
      exact ⟨hscalar, by simp, hbytes⟩
  | four rest hlead hsecond hthird hfourth =>
      obtain ⟨hscalar, hbytes⟩ := encodePoint_four hlead hsecond hthird hfourth
      exact ⟨hscalar, by simp, hbytes⟩

/-! ## Whole texts -/

/-- Reading goes on after a sequence. -/
theorem Sequence.decodeAt_eq
    {b : UInt8}
    {rest : Bytes}
    {c : CodePoint}
    {k : Nat}
    (h : Sequence b rest c k)
    (position : Nat) :
    decodeAt position (b :: rest) =
      (c :: ·) <$> decodeAt (position + (k + 1)) (rest.drop k) := by
  rw [decodeAt.eq_def]
  cases h with
  | one rest hlead =>
      simp only [hlead]
      rfl
  | two rest hlead hsecond =>
      simp only [hlead, hsecond, if_true, List.drop_succ_cons, List.drop_zero]
  | three rest hlead hsecond hthird =>
      simp only [hlead, hsecond, hthird, if_true, List.drop_succ_cons, List.drop_zero]
  | four rest hlead hsecond hthird hfourth =>
      simp only [hlead, hsecond, hthird, hfourth, if_true, List.drop_succ_cons, List.drop_zero]

theorem decodeAt_encode
    {t : Text}
    (h : ∀ c ∈ t, c.isSurrogate = false)
    (position : Nat) :
    decodeAt position (encode t) = .ok t := by
  induction t generalizing position with
  | nil =>
      rfl
  | cons c t ih =>
      obtain ⟨b, bs, hbytes, hsequence⟩ := exists_sequence_encodePoint (h c (by simp)) (encode t)
      have hcons : encode (c :: t) = b :: (bs ++ encode t) := by
        rw [encode, List.flatMap_cons, hbytes]
        rfl
      rw [hcons, hsequence.decodeAt_eq, List.drop_left,
        ih fun d hd => h d (List.mem_cons_of_mem c hd)]
      rfl

/-- A text without surrogates is read back from its bytes. -/
theorem decode_encode
    {t : Text}
    (h : ∀ c ∈ t, c.isSurrogate = false) :
    decode (encode t) = .ok t :=
  decodeAt_encode h 0

/-- What is read from bytes begins with the code point of a sequence at their front. -/
theorem exists_sequence_of_decodeAt
    {position : Nat}
    {b : UInt8}
    {rest : Bytes}
    {t : Text}
    (h : decodeAt position (b :: rest) = .ok t) :
    ∃ c k u, Sequence b rest c k ∧ t = c :: u ∧
      decodeAt (position + (k + 1)) (rest.drop k) = .ok u := by
  have hcons : ∀ {c : CodePoint} {r : Except Fault Text}, (c :: ·) <$> r = .ok t →
      ∃ u, t = c :: u ∧ r = .ok u := by
    intro c r hr
    obtain ⟨u, hu, rfl⟩ := map_eq_ok_iff.mp hr
    exact ⟨u, rfl, hu⟩
  rw [decodeAt.eq_def] at h
  dsimp only at h
  split at h
  · cases h
  · next hlead =>
    obtain ⟨u, ht, hu⟩ := hcons h
    exact ⟨_, 0, u, .one _ hlead, ht, hu⟩
  · next hlead =>
    split at h
    · cases h
    · split at h
      · next hsecond =>
        obtain ⟨u, ht, hu⟩ := hcons h
        exact ⟨_, 1, u, .two _ hlead hsecond, ht, hu⟩
      · cases h
  · next hlead =>
    split at h
    · cases h
    · split at h
      · next hsecond =>
        split at h
        · cases h
        · split at h
          · next hthird =>
            obtain ⟨u, ht, hu⟩ := hcons h
            exact ⟨_, 2, u, .three _ hlead hsecond hthird, ht, hu⟩
          · cases h
      · cases h
  · next hlead =>
    split at h
    · cases h
    · split at h
      · next hsecond =>
        split at h
        · cases h
        · split at h
          · next hthird =>
            split at h
            · cases h
            · split at h
              · next hfourth =>
                obtain ⟨u, ht, hu⟩ := hcons h
                exact ⟨_, 3, u, .four _ hlead hsecond hthird hfourth, ht, hu⟩
              · cases h
          · cases h
      · cases h

/-- What is read from bytes is a text without surrogates, and the bytes are the ones it has. -/
theorem encode_of_decodeAt
    {position : Nat}
    {bytes : Bytes}
    {t : Text}
    (h : decodeAt position bytes = .ok t) :
    (∀ c ∈ t, c.isSurrogate = false) ∧ encode t = bytes := by
  induction hlength : bytes.length using Nat.strongRecOn generalizing position bytes t with
  | _ n ih =>
    cases bytes with
    | nil =>
        cases h
        exact ⟨List.forall_mem_nil _, rfl⟩
    | cons b rest =>
        obtain ⟨c, k, u, hsequence, rfl, hu⟩ := exists_sequence_of_decodeAt h
        have hshorter : (rest.drop k).length < n := by
          rw [← hlength, List.length_drop, List.length_cons]
          omega
        obtain ⟨hscalars, hencode⟩ := ih _ hshorter hu rfl
        obtain ⟨hscalar, -, hbytes⟩ := hsequence.encodePoint_eq
        refine ⟨List.forall_mem_cons.mpr ⟨hscalar, hscalars⟩, ?_⟩
        rw [encode, List.flatMap_cons, hbytes]
        change b :: rest.take k ++ encode u = b :: rest
        rw [hencode, List.cons_append, List.take_append_drop]

/-- Bytes are read as a text exactly when they are those of that text and it has no surrogates. -/
theorem decode_eq_ok_iff
    {bytes : Bytes}
    {t : Text} :
    decode bytes = .ok t ↔ (∀ c ∈ t, c.isSurrogate = false) ∧ encode t = bytes := by
  constructor
  · exact encode_of_decodeAt
  · rintro ⟨hscalars, rfl⟩
    exact decode_encode hscalars

/-- Bytes are read as a text without surrogates. -/
theorem isSurrogate_of_decode
    {bytes : Bytes}
    {t : Text}
    (h : decode bytes = .ok t) :
    ∀ c ∈ t, c.isSurrogate = false :=
  (decode_eq_ok_iff.mp h).1

end Utf8

end Keybox

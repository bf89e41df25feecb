import Keybox.Proofs.KeyText

/-!
# The codec of key texts is a bijection

Which texts are key texts is said by their characters alone: the tag, then any run of Base58 digits.
Every other text is refused, and the fault says what is wrong with it: the tag that is missing, the
blanks around the payload, the first run outside ASCII, or the first character that is no digit.

**Results.** Bytes and key texts are in bijection, and the texts that are read are exactly those of
that form. Leading zero bytes, the empty payload and blanks need no exception.
-/

namespace Keybox

namespace Base58

/-- The digits of Base58 in the order of their values. -/
def digitText : Text :=
  lit "123456789ABCDEFGHJKLMNPQRSTUVWXYZabcdefghijkmnopqrstuvwxyz"

theorem map_chr_alphabet :
    alphabet.map chr = digitText := by
  decide +kernel

theorem valueOf?_eq_none_iff
    {c : CodePoint} :
    valueOf? c = none ↔ c ∉ digitText := by
  rw [valueOf?, List.findIdx?_eq_none_iff, ← map_chr_alphabet, List.mem_map]
  simp only [decide_eq_false_iff_not, not_exists, not_and]

theorem digit_mem_digitText
    {n : Nat}
    (hn : n < 58) :
    digit n ∈ digitText := by
  by_contra hnot
  rw [← valueOf?_eq_none_iff, valueOf?_digit hn] at hnot
  cases hnot

/-- The values of a text are refused for its first code point that is no digit. -/
theorem values_eq_error_iff
    {t : Text}
    {c : CodePoint} :
    values t = .error c ↔ t.find? (· ∉ digitText) = some c := by
  induction t with
  | nil =>
      simp [values]
  | cons d rest ih =>
      rw [values]
      cases hd : valueOf? d with
      | none =>
          rw [List.find?_cons_of_pos (by simpa using valueOf?_eq_none_iff.mp hd)]
          simp
      | some n =>
          have hmem : d ∈ digitText := by
            by_contra hnot
            rw [valueOf?_eq_none_iff.mpr hnot] at hd
            cases hd
          rw [List.find?_cons_of_neg (by simpa using hmem), ← ih]
          cases values rest with
          | error e =>
              exact Iff.rfl
          | ok ns =>
              exact iff_of_false (by rintro ⟨⟩) (by rintro ⟨⟩)

/-- The zeros at the front are digits, so the first code point that is none comes after them. -/
theorem decode_eq_error_iff
    {t : Text}
    {c : CodePoint} :
    decode t = .error c ↔ t.find? (· ∉ digitText) = some c := by
  have hzeros : (List.replicate (t.takeWhile (· = zeroDigit)).length zeroDigit).find?
      (· ∉ digitText) = none := by
    rw [List.find?_eq_none]
    intro d hd
    have hzero : zeroDigit ∈ digitText := digit_mem_digitText (by decide : 0 < 58)
    rw [List.eq_of_mem_replicate hd]
    simpa using hzero
  have hfind : t.find? (· ∉ digitText) =
      (t.dropWhile (· = zeroDigit)).find? (· ∉ digitText) := by
    conv => lhs; rw [← replicate_append_dropWhile zeroDigit t, List.find?_append, hzeros]
    rfl
  rw [hfind, ← values_eq_error_iff, decode]
  cases values (t.dropWhile (· = zeroDigit)) with
  | error e =>
      simp only [Except.error.injEq]
  | ok ns =>
      exact iff_of_false (by rintro ⟨⟩) (by rintro ⟨⟩)

end Base58

namespace KeyText

/-- A text of the form of key texts: the tag, then a run of Base58 digits that may be empty. -/
def IsKeyText
    (t : Text) : Prop :=
  ∃ p, t = lit "ed25519:" ++ p ∧ ∀ c ∈ p, c ∈ Base58.digitText

/-- What is wrong with a text that is not read, the first thing first. -/
inductive Refuses : Text → Fault → Prop
  | untagged
      {t : Text}
      (missing : ¬ tag <+: t) :
      Refuses t (.untagged (.text t))
  | surroundingBlanks
      {p : Text}
      (blanks : Text.trim p ≠ p) :
      Refuses (tag ++ p) (.surroundingBlanks (tag ++ p))
  | notAscii
      {p : Text}
      {cause : Unencodable}
      (trimmed : Text.trim p = p)
      (first : Text.notAscii? 0 p = some cause) :
      Refuses (tag ++ p) (.notAscii cause)
  | notDigit
      {p : Text}
      {c : CodePoint}
      (trimmed : Text.trim p = p)
      (ascii : Text.notAscii? 0 p = none)
      (first : p.find? (· ∉ Base58.digitText) = some c) :
      Refuses (tag ++ p) (.notDigit c)

theorem decode_of_untagged
    {t : Text}
    (h : ¬ tag <+: t) :
    decode t = .error (.untagged (.text t)) := by
  have htagged : isTagged t = false := by
    rw [isTagged, Text.beginsWith, Bool.eq_false_iff]
    exact fun hprefix => h (List.isPrefixOf_iff_prefix.mp hprefix)
  rw [decode, htagged]
  rfl

theorem refuses_of_decodePayload
    {p : Text}
    {fault : Fault}
    (htrim : Text.trim p = p)
    (h : decodePayload p = .error fault) :
    Refuses (tag ++ p) fault := by
  rw [decodePayload_of_trim htrim] at h
  cases hascii : Text.notAscii? 0 p with
  | some cause =>
      rw [hascii] at h
      obtain rfl := Except.error.inj h
      exact .notAscii htrim hascii
  | none =>
      rw [hascii] at h
      obtain ⟨c, hc, rfl⟩ := mapError_eq_error_iff.mp h
      exact .notDigit htrim hascii (Base58.decode_eq_error_iff.mp hc)

/-- A text that is not read is refused for what is wrong with it. -/
theorem refuses_of_decode
    {t : Text}
    {fault : Fault}
    (h : decode t = .error fault) :
    Refuses t fault := by
  by_cases htag : tag <+: t
  · obtain ⟨p, rfl⟩ := htag
    rw [decode_tag_append] at h
    split at h
    · next htrim =>
      obtain rfl := Except.error.inj h
      exact .surroundingBlanks htrim
    · next htrim =>
      exact refuses_of_decodePayload (not_not.mp htrim) h
  · rw [decode_of_untagged htag] at h
    obtain rfl := Except.error.inj h
    exact .untagged htag

theorem isKeyText_encode
    (key : Bytes) :
    IsKeyText (encode key) := by
  refine ⟨Base58.encode key, rfl, ?_⟩
  intro c hc
  obtain ⟨n, hn, rfl⟩ := Base58.exists_digit_of_mem_encode hc
  exact Base58.digit_mem_digitText hn

theorem exists_digit_of_mem_digitText
    {c : CodePoint}
    (hc : c ∈ Base58.digitText) :
    ∃ n < 58, Base58.digit n = c := by
  cases hvalue : Base58.valueOf? c with
  | none =>
      exact absurd hc (Base58.valueOf?_eq_none_iff.mp hvalue)
  | some n =>
      exact ⟨n, Base58.digit_of_valueOf? hvalue⟩

/-- Digits are ASCII and no blanks, so nothing is wrong with a text of the form of key texts. -/
theorem IsKeyText.not_refuses
    {t : Text}
    (h : IsKeyText t)
    (fault : Fault) :
    ¬ Refuses t fault := by
  obtain ⟨p, rfl, hp⟩ := h
  intro hrefuses
  have htrim : Text.trim p = p := by
    apply Text.trim_eq_self
    intro c hc
    obtain ⟨n, hn, rfl⟩ := exists_digit_of_mem_digitText (hp c hc)
    exact Base58.digit_isBlank_all n hn
  have hascii : Text.notAscii? 0 p = none := by
    apply Text.notAscii?_eq_none
    intro c hc
    obtain ⟨n, hn, rfl⟩ := exists_digit_of_mem_digitText (hp c hc)
    exact Base58.digit_isAscii_all n hn
  have hfind : p.find? (· ∉ Base58.digitText) = none := by
    rw [List.find?_eq_none]
    intro c hc
    simpa using hp c hc
  generalize ht : lit "ed25519:" ++ p = t at hrefuses
  cases hrefuses with
  | untagged missing =>
      exact missing ⟨p, ht⟩
  | surroundingBlanks blanks =>
      obtain rfl := List.append_cancel_left ht
      exact blanks htrim
  | notAscii _ first =>
      obtain rfl := List.append_cancel_left ht
      rw [hascii] at first
      cases first
  | notDigit _ _ first =>
      obtain rfl := List.append_cancel_left ht
      rw [hfind] at first
      cases first

theorem exists_decode_iff_isKeyText
    {t : Text} :
    (∃ key, decode t = .ok key) ↔ IsKeyText t := by
  constructor
  · rintro ⟨key, hkey⟩
    rw [decode_eq_ok_iff.mp hkey]
    exact isKeyText_encode key
  · intro h
    cases hdecode : decode t with
    | ok key =>
        exact ⟨key, rfl⟩
    | error fault =>
        exact absurd (refuses_of_decode hdecode) (h.not_refuses fault)

/-- **The codec is a bijection.** The text of any bytes is read as these bytes. The texts that are
read are those of the tag and Base58 digits, and each is the text of the bytes it is read as. Every
other text is refused with a fault that says what is wrong with it. -/
theorem codec_bijective :
    (∀ key : Bytes, decode (encode key) = .ok key) ∧
      (∀ t : Text, (∃ key, decode t = .ok key) ↔ IsKeyText t) ∧
        (∀ (t : Text) (key : Bytes), decode t = .ok key → encode key = t) ∧
          ∀ t : Text, ¬ IsKeyText t → ∃ fault, decode t = .error fault ∧ Refuses t fault := by
  refine ⟨decode_encode, fun t => exists_decode_iff_isKeyText, fun t key => encode_of_decode, ?_⟩
  intro t hnot
  cases hdecode : decode t with
  | ok key =>
      exact absurd (exists_decode_iff_isKeyText.mp ⟨key, hdecode⟩) hnot
  | error fault =>
      exact ⟨fault, rfl, refuses_of_decode hdecode⟩

end KeyText

end Keybox

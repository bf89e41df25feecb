import Keybox.KeyText
import Keybox.Proofs.Base58
import Keybox.Proofs.Except

/-!
# Key texts and the keys they stand for

A key text is read exactly when it is the text of some bytes, and then as these bytes. The test for
blanks at the ends does its share: the reading of a payload passes over the blanks after it, and so
would not tell a text from the same text with blanks.
-/

namespace Keybox

namespace Text

theorem dropEndWhile_eq_self
    {p : CodePoint → Bool}
    {t : Text}
    (h : ∀ c ∈ t, p c = false) :
    dropEndWhile p t = t := by
  have hrev : ∀ c ∈ t.reverse, p c = false := fun c hc => h c (List.mem_reverse.mp hc)
  have hdrop : t.reverse.dropWhile p = t.reverse := by
    cases hr : t.reverse with
    | nil =>
        rfl
    | cons c rest =>
        have hc := hrev c (by simp [hr])
        simp [hc]
  rw [dropEndWhile, hdrop, List.reverse_reverse]

theorem length_dropEndWhile_le
    (p : CodePoint → Bool)
    (t : Text) :
    (dropEndWhile p t).length ≤ t.length := by
  have hsuffix : t.reverse.dropWhile p <:+ t.reverse := List.dropWhile_suffix p
  rw [dropEndWhile, List.length_reverse]
  exact hsuffix.length_le.trans_eq t.length_reverse

/-- A text that trimming leaves as it is has no blanks at its end. -/
theorem dropEndWhile_eq_self_of_trim
    {t : Text}
    (h : trim t = t) :
    dropEndWhile CodePoint.isBlank t = t := by
  have hsuffix : t.dropWhile CodePoint.isBlank <:+ t := List.dropWhile_suffix _
  have hle := length_dropEndWhile_le CodePoint.isBlank (t.dropWhile CodePoint.isBlank)
  have hlength : t.length ≤ (t.dropWhile CodePoint.isBlank).length := by
    rwa [← trim, h] at hle
  rw [trim, hsuffix.eq_of_length_le hlength] at h
  exact h

/-- A text without blanks has none at its ends. -/
theorem trim_eq_self
    {t : Text}
    (h : ∀ c ∈ t, c.isBlank = false) :
    trim t = t := by
  have hdrop : t.dropWhile CodePoint.isBlank = t := by
    cases t with
    | nil =>
        rfl
    | cons c rest =>
        have hc := h c (by simp)
        simp [hc]
  rw [trim, hdrop, dropEndWhile_eq_self h]

theorem notAscii?_eq_none
    {t : Text}
    (h : ∀ c ∈ t, c.isAscii = true)
    (position : Nat) :
    notAscii? position t = none := by
  induction t generalizing position with
  | nil =>
      rfl
  | cons c rest ih =>
      rw [notAscii?, if_pos (h c (by simp))]
      exact ih (fun d hd => h d (List.mem_cons_of_mem c hd)) (position + 1)

end Text

namespace Base58

theorem digit_isAscii_all : ∀ n < 58, (digit n).isAscii = true := by
  decide +kernel

theorem digit_isBlank_all : ∀ n < 58, (digit n).isBlank = false := by
  decide +kernel

/-- What is written in Base58 is made of digits. -/
theorem exists_digit_of_mem_encode
    {bytes : Bytes}
    {c : CodePoint}
    (hc : c ∈ encode bytes) :
    ∃ n < 58, digit n = c := by
  rw [encode, List.mem_append] at hc
  rcases hc with hzero | hdigit
  · exact ⟨0, by omega, (List.eq_of_mem_replicate hzero).symm⟩
  · obtain ⟨n, hn, rfl⟩ := List.mem_map.mp hdigit
    exact ⟨n, Numeral.lt_of_mem_digits (by decide) hn, rfl⟩

theorem isAscii_of_mem_encode
    {bytes : Bytes}
    {c : CodePoint}
    (hc : c ∈ encode bytes) :
    c.isAscii = true := by
  obtain ⟨n, hn, rfl⟩ := exists_digit_of_mem_encode hc
  exact digit_isAscii_all n hn

theorem notAscii?_encode
    (bytes : Bytes) :
    Text.notAscii? 0 (encode bytes) = none :=
  Text.notAscii?_eq_none (fun _ hc => isAscii_of_mem_encode hc) 0

end Base58

namespace KeyText

theorem isTagged_iff
    {t : Text} :
    isTagged t = true ↔ ∃ p, t = tag ++ p := by
  rw [isTagged, Text.beginsWith, List.isPrefixOf_iff_prefix]
  constructor
  · rintro ⟨p, rfl⟩
    exact ⟨p, rfl⟩
  · rintro ⟨p, rfl⟩
    exact ⟨p, rfl⟩

@[simp] theorem isTagged_tag_append
    (p : Text) :
    isTagged (tag ++ p) = true :=
  isTagged_iff.mpr ⟨p, rfl⟩

@[simp] theorem payload_tag_append
    (p : Text) :
    payload (tag ++ p) = p := by
  rw [payload, List.drop_left]

/-- Without blanks at its ends, the payload itself is read. -/
theorem decodePayload_of_trim
    {p : Text}
    (h : Text.trim p = p) :
    decodePayload p =
      match Text.notAscii? 0 p with
      | some cause => .error (.notAscii cause)
      | none => (Base58.decode p).mapError .notDigit := by
  cases hcause : Text.notAscii? 0 p <;>
    simp only [decodePayload, Text.dropEndWhile_eq_self_of_trim h, hcause]

@[simp] theorem trim_encode
    (key : Bytes) :
    Text.trim (Base58.encode key) = Base58.encode key := by
  apply Text.trim_eq_self
  intro c hc
  obtain ⟨n, hn, rfl⟩ := Base58.exists_digit_of_mem_encode hc
  exact Base58.digit_isBlank_all n hn

theorem decodePayload_encode
    (key : Bytes) :
    decodePayload (Base58.encode key) = .ok key := by
  rw [decodePayload_of_trim (trim_encode key), Base58.notAscii?_encode, Base58.decode_encode]
  rfl

theorem encode_of_decodePayload
    {p : Text}
    {key : Bytes}
    (htrim : Text.trim p = p)
    (h : decodePayload p = .ok key) :
    Base58.encode key = p := by
  rw [decodePayload_of_trim htrim] at h
  cases ha : Text.notAscii? 0 p with
  | some cause =>
      simp [ha] at h
  | none =>
      cases hd : Base58.decode p with
      | error c =>
          simp [ha, hd] at h
      | ok bytes =>
          simp only [ha, hd, mapError_ok] at h
          cases h
          exact Base58.encode_of_decode hd

/-- A tagged text is read by its payload, unless that has blanks at its ends. -/
theorem decode_tag_append
    (p : Text) :
    decode (tag ++ p) =
      if Text.trim p ≠ p then .error (.surroundingBlanks (tag ++ p)) else decodePayload p := by
  rw [decode, isTagged_tag_append, payload_tag_append]
  rfl

@[simp] theorem decode_encode
    (key : Bytes) :
    decode (encode key) = .ok key := by
  rw [encode, decode_tag_append, trim_encode, if_neg (by simp), decodePayload_encode]

theorem encode_of_decode
    {t : Text}
    {key : Bytes}
    (h : decode t = .ok key) :
    encode key = t := by
  by_cases htag : isTagged t = true
  · obtain ⟨p, rfl⟩ := isTagged_iff.mp htag
    rw [decode_tag_append] at h
    by_cases htrim : Text.trim p = p
    · rw [if_neg (by simp [htrim])] at h
      rw [encode, encode_of_decodePayload htrim h]
    · rw [if_pos htrim] at h
      cases h
  · rw [decode, if_pos (by simpa using htag)] at h
    cases h

/-- A text is read as a key exactly when it is the text of that key. -/
theorem decode_eq_ok_iff
    {t : Text}
    {key : Bytes} :
    decode t = .ok key ↔ t = encode key := by
  constructor
  · intro h
    exact (encode_of_decode h).symm
  · rintro rfl
    exact decode_encode key

/-- The text of a key is ASCII. -/
theorem isAscii_of_mem_encode
    {key : Bytes}
    {c : CodePoint}
    (hc : c ∈ encode key) :
    c.isAscii = true := by
  rcases List.mem_append.mp hc with hc | hc
  · exact List.all_eq_true.mp (by decide : tag.all CodePoint.isAscii = true) c hc
  · exact Base58.isAscii_of_mem_encode hc

theorem encode_injective : Function.Injective encode := by
  intro a b h
  exact Base58.encode_injective (List.append_cancel_left h)

end KeyText

end Keybox

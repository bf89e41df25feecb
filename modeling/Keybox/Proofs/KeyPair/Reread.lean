import Keybox.Proofs.KeyPair.Acceptance
import Keybox.Proofs.KeyPair.RoundTrip

/-!
# Written pairs are read again

A pair whose record is accepted has the texts of a seed's keys, one of them in a slot and nothing in
the other. Reading its file gives the pair with the raw keys that the texts stand for, and that is
the pair itself unless its raw keys were others.
-/

namespace Keybox

namespace KeyPair

/-- A pair whose record is accepted under the pair's own account. -/
def Accepted
    (p : KeyPair) : Prop :=
  ∃ q, decode p.record.members p.account none = .ok q

/-- The text of the private key, in whichever slot it stands. -/
def privateText
    (p : KeyPair) : Text :=
  if p.privateKey = [] then p.secretKey else p.privateKey

/-- The pair with its texts as they are and with the raw keys that these stand for. -/
def reread
    (p : KeyPair) : KeyPair :=
  { p with
    rawPublic := (KeyText.decode p.publicKey).toOption.getD []
    rawPrivate := (KeyText.decode p.privateText).toOption.getD [] }

/-! ## The members of a pair's record -/

theorem find?_publicField
    (p : KeyPair) :
    p.record.members.find? publicField = some (.text p.publicKey) :=
  rfl

/-- A slot's member is there if the slot holds something. -/
theorem find?_slotField
    (p : KeyPair)
    (slot : Slot) :
    p.record.members.find? slot.field =
      if p.slot slot = [] then none else some (.text (p.slot slot)) := by
  have hsecond : Slot.secretKey.field ≠ Slot.privateKey.field := by decide
  have hfirst : Slot.privateKey.field ≠ Slot.secretKey.field := by decide
  have hheads : ∀ slot : Slot, accountField ≠ slot.field ∧ publicField ≠ slot.field := by
    intro slot
    cases slot <;> decide
  obtain ⟨haccount, hpublic⟩ := hheads slot
  have hrecord : p.record.members.find? slot.field = Members.find? slot.field
      (Record.members (p.slotMembers .privateKey ++ p.slotMembers .secretKey)) := by
    change Members.find? slot.field
      ((accountField, .text p.account) :: (publicField, .text p.publicKey) ::
        Record.members (p.slotMembers .privateKey ++ p.slotMembers .secretKey)) = _
    rw [Members.find?, if_neg haccount, Members.find?, if_neg hpublic]
  rw [hrecord, slotMembers, slotMembers]
  cases slot with
  | privateKey =>
      by_cases hp : p.slot .privateKey = [] <;> by_cases hs : p.slot .secretKey = [] <;>
        simp [hp, hs, Record.members, Members.find?, hsecond]
  | secretKey =>
      by_cases hp : p.slot .privateKey = [] <;> by_cases hs : p.slot .secretKey = [] <;>
        simp [hp, hs, Record.members, Members.find?, hfirst]

/-! ## Accepted pairs -/

/-- An accepted pair has the key texts of a seed, with the other slot empty. -/
theorem Accepted.exists_seed
    {p : KeyPair}
    (h : p.Accepted) :
    ∃ seed slot, Stores p.record.members p.account seed slot ∧
      p.publicKey = KeyText.encode seed.publicKey ∧
        p.slot slot = KeyText.encode seed.privateKey ∧ p.slot slot.other = [] := by
  obtain ⟨q, hq⟩ := h
  rw [decode, mapError_eq_ok_iff, check_eq_ok_iff] at hq
  obtain ⟨seed, slot, hstores, -⟩ := hq
  refine ⟨seed, slot, hstores, ?_, ?_, ?_⟩
  · have hpublic := hstores.publicKey
    rw [find?_publicField] at hpublic
    exact Json.text.inj (Option.some.inj hpublic)
  · have hprivate := hstores.privateKey
    rw [find?_slotField] at hprivate
    split at hprivate
    · cases hprivate
    · exact Json.text.inj (Option.some.inj hprivate)
  · by_contra hother
    have hfalsy := hstores.otherSlot (.text (p.slot slot.other))
      (by rw [find?_slotField, if_neg hother])
    rw [← Json.isTruthy_eq_false_iff, Json.isTruthy] at hfalsy
    simp [hother] at hfalsy

theorem encode_ne_nil
    (key : Bytes) :
    KeyText.encode key ≠ [] :=
  tag_append_ne_nil (Base58.encode key)

/-- What the record of an accepted pair gives is the pair with the raw keys of its texts, whatever
place it comes from. -/
theorem Accepted.decode_eq
    {p : KeyPair}
    (h : p.Accepted)
    (place : Option Text) :
    decode p.record.members p.account place = .ok p.reread := by
  obtain ⟨seed, slot, hstores, hpublic, hprivate, hother⟩ := h.exists_seed
  have hreread : p.reread = ofSeedIn slot seed p.account := by
    cases slot with
    | privateKey =>
        have hp : p.privateKey = KeyText.encode seed.privateKey := hprivate
        have hs : p.secretKey = [] := hother
        simp [reread, privateText, ofSeedIn, hpublic, hp, hs, encode_ne_nil, Except.toOption]
    | secretKey =>
        have hp : p.privateKey = [] := hother
        have hs : p.secretKey = KeyText.encode seed.privateKey := hprivate
        simp [reread, privateText, ofSeedIn, hpublic, hp, hs, Except.toOption]
  rw [decode, mapError_eq_ok_iff, check_eq_ok_iff]
  exact ⟨seed, slot, hstores, hreread⟩

/-- A pair that its record gives back is read again as it is. -/
theorem reread_eq_self
    {p : KeyPair}
    {place : Option Text}
    (h : decode p.record.members p.account place = .ok p) :
    p.reread = p := by
  have hp : check p.record.members p.account = .ok p := by
    rwa [decode, mapError_eq_ok_iff] at h
  have haccepted : p.Accepted := ⟨p, by rw [decode, mapError_eq_ok_iff, hp]⟩
  have hreread := haccepted.decode_eq place
  rw [h] at hreread
  exact (Except.ok.inj hreread).symm

/-- The pair of a seed is accepted, in either slot, and is what its record gives. -/
theorem decode_record_ofSeedIn
    (slot : Slot)
    (seed : Seed)
    (account : Text)
    (place : Option Text) :
    decode (ofSeedIn slot seed account).record.members account place =
      .ok (ofSeedIn slot seed account) := by
  rw [decode, mapError_eq_ok_iff, check_eq_ok_iff]
  refine ⟨seed, slot, ⟨rfl, rfl, ?_, ?_⟩, rfl⟩
  · rw [find?_slotField]
    cases slot <;> simp [KeyPair.slot, ofSeedIn, encode_ne_nil]
  · intro v hv
    rw [find?_slotField] at hv
    cases slot <;> simp [KeyPair.slot, ofSeedIn, Slot.other] at hv

/-! ## Files of accepted pairs -/

theorem unpaired_encode
    (key : Bytes) :
    Text.Unpaired (KeyText.encode key) :=
  Text.unpaired_of_scalar fun _ hc => Utf8.isSurrogate_of_isAscii (KeyText.isAscii_of_mem_encode hc)

/-- The keys of an accepted pair are ASCII, so only the account could have surrogates. -/
theorem Accepted.unpaired
    {p : KeyPair}
    (h : p.Accepted)
    (haccount : p.account.Unpaired) :
    p.Unpaired := by
  obtain ⟨seed, slot, -, hpublic, hprivate, hother⟩ := h.exists_seed
  have hempty : Text.Unpaired [] := by decide
  refine ⟨haccount, by rw [hpublic]; exact unpaired_encode _, ?_, ?_⟩
  · cases slot with
    | privateKey =>
        rw [show p.privateKey = _ from hprivate]
        exact unpaired_encode _
    | secretKey =>
        rwa [show p.privateKey = [] from hother]
  · cases slot with
    | privateKey =>
        rwa [show p.secretKey = [] from hother]
    | secretKey =>
        rw [show p.secretKey = _ from hprivate]
        exact unpaired_encode _

/-- The bytes of an accepted pair's file are read as the pair with the raw keys of its texts. -/
theorem Accepted.ofDocument_json
    {p : KeyPair}
    (h : p.Accepted)
    (haccount : p.account.Unpaired)
    (place : Option Text) :
    ofDocument (.bytes (Utf8.encode p.json)) p.account place = .ok p.reread := by
  rw [ofDocument_bytes_json (h.unpaired haccount), h.decode_eq place]
  rfl

end KeyPair

end Keybox

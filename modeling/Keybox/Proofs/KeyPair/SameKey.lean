import Keybox.Proofs.KeyPair.Coherence
import Mathlib.Data.List.Forall2

/-!
# Pairs that agree store the same key

Pairs are compared by their account and by the bytes of their keys. The texts that a store keeps of
them have no part in it. For pairs that were made from raw keys or taken from outside it is the same
whether bytes or texts are compared, because a key has one text, and because the private key has the
public key in it.

**Results.** Two such pairs agree exactly when their accounts and the texts of their private keys
are equal, in whichever slots these stand, and so exactly when their records are the same but for
the name of the slot. Pairs with different texts of a key never agree.
-/

namespace Keybox

namespace Record

/-- Two members that are the same, but that each may stand for another of the slots. -/
def SameMember
    (m n : Text × Text) : Prop :=
  (m.1 = n.1 ∨ ∃ slot : Slot, m.1 = slot.field ∧ n.1 = slot.other.field) ∧ m.2 = n.2

/-- Two records that are the same, but that the private key may stand in another slot. -/
def SameButSlot
    (r s : Record) : Prop :=
  List.Forall₂ SameMember r s

end Record

theorem Slot.eq_or_eq_other
    (s t : Slot) :
    t = s ∨ t = s.other := by
  cases s <;> cases t <;> decide

namespace KeyPair

theorem agrees_iff
    {p q : KeyPair} :
    p.agrees q = true ↔
      p.account = q.account ∧ p.rawPublic = q.rawPublic ∧ p.rawPrivate = q.rawPrivate := by
  simp only [agrees, Bool.and_eq_true, beq_iff_eq, and_assoc]

namespace Coherent

variable {p q : KeyPair}

/-- The slot that is in use holds the text of the private key. -/
theorem privateText_eq
    (h : p.Coherent) :
    p.privateText = KeyText.encode p.rawPrivate := by
  obtain ⟨slot, hslot, hunique⟩ := h.oneSlot
  have htext := h.privateText slot hslot
  rw [KeyPair.privateText]
  split
  · next hfirst =>
    cases slot with
    | privateKey =>
        exact absurd hfirst hslot
    | secretKey =>
        exact htext
  · next hfirst =>
    obtain rfl := hunique .privateKey hfirst
    exact htext

/-- The record has the account and both keys, the private key in one slot. -/
theorem exists_record_eq
    (h : p.Coherent) :
    ∃ slot : Slot, p.record =
      [(accountField, p.account), (publicField, p.publicKey), (slot.field, p.privateText)] := by
  obtain ⟨slot, hslot, hunique⟩ := h.oneSlot
  have hother : p.slot slot.other = [] := by
    by_contra hother
    have heq := hunique slot.other hother
    cases slot <;> cases heq
  have htext : p.privateText = p.slot slot := by
    rw [h.privateText_eq, h.privateText slot hslot]
  refine ⟨slot, ?_⟩
  rw [record, htext]
  cases slot with
  | privateKey =>
      rw [slotMembers, slotMembers, if_neg hslot, if_pos (show p.slot .secretKey = [] from hother)]
      rfl
  | secretKey =>
      rw [slotMembers, slotMembers, if_neg hslot, if_pos (show p.slot .privateKey = [] from hother)]
      rfl

theorem privateText_eq_iff
    (hp : p.Coherent)
    (hq : q.Coherent) :
    p.privateText = q.privateText ↔ p.rawPrivate = q.rawPrivate := by
  rw [hp.privateText_eq, hq.privateText_eq, KeyText.encode_injective.eq_iff]

theorem publicKey_eq_iff
    (hp : p.Coherent)
    (hq : q.Coherent) :
    p.publicKey = q.publicKey ↔ p.rawPublic = q.rawPublic := by
  rw [hp.publicText, hq.publicText, KeyText.encode_injective.eq_iff]

/-- The private key decides about the public key. -/
theorem rawPublic_eq
    (hp : p.Coherent)
    (hq : q.Coherent)
    (h : p.rawPrivate = q.rawPrivate) :
    p.rawPublic = q.rawPublic := by
  rw [hp.publicHalf, hq.publicHalf, h]

theorem agrees_iff_texts
    (hp : p.Coherent)
    (hq : q.Coherent) :
    p.agrees q = true ↔ p.account = q.account ∧ p.privateText = q.privateText := by
  rw [agrees_iff, hp.privateText_eq_iff hq]
  constructor
  · rintro ⟨haccount, -, hprivate⟩
    exact ⟨haccount, hprivate⟩
  · rintro ⟨haccount, hprivate⟩
    exact ⟨haccount, hp.rawPublic_eq hq hprivate, hprivate⟩

theorem publicKey_eq
    (hp : p.Coherent)
    (hq : q.Coherent)
    (h : p.privateText = q.privateText) :
    p.publicKey = q.publicKey :=
  (hp.publicKey_eq_iff hq).mpr (hp.rawPublic_eq hq ((hp.privateText_eq_iff hq).mp h))

theorem sameButSlot_iff_texts
    (hp : p.Coherent)
    (hq : q.Coherent) :
    p.record.SameButSlot q.record ↔ p.account = q.account ∧ p.privateText = q.privateText := by
  obtain ⟨s, hs⟩ := hp.exists_record_eq
  obtain ⟨t, ht⟩ := hq.exists_record_eq
  have hnames : s.field = t.field ∨ ∃ slot : Slot, s.field = slot.field ∧
      t.field = slot.other.field := by
    rcases s.eq_or_eq_other t with rfl | rfl
    · exact Or.inl rfl
    · exact Or.inr ⟨s, rfl, rfl⟩
  rw [Record.SameButSlot, hs, ht]
  simp only [List.forall₂_cons, Record.SameMember, true_or, true_and, hnames,
    List.forall₂_nil_left_iff, and_true]
  constructor
  · rintro ⟨haccount, -, hprivate⟩
    exact ⟨haccount, hprivate⟩
  · rintro ⟨haccount, hprivate⟩
    exact ⟨haccount, hp.publicKey_eq hq hprivate, hprivate⟩

end Coherent

/-- **Pairs that agree store the same key.** Two pairs, however they were made, agree exactly when
their accounts and the texts of their private keys are equal, and exactly when their records are the
same but for the slot that the private key stands in. The text of the private key decides about that
of the public key, and with another text of either key a pair never agrees. -/
theorem agrees_iff_same_texts
    {p q : KeyPair}
    (hp : Obtained p)
    (hq : Obtained q) :
    (p.agrees q = true ↔ p.account = q.account ∧ p.privateText = q.privateText) ∧
      (p.agrees q = true ↔ p.record.SameButSlot q.record) ∧
      (p.privateText = q.privateText → p.publicKey = q.publicKey) ∧
      (p.publicKey ≠ q.publicKey ∨ p.privateText ≠ q.privateText → p.agrees q = false) := by
  have htexts := hp.coherent.agrees_iff_texts hq.coherent
  have hpublic := hp.coherent.publicKey_eq hq.coherent
  refine ⟨htexts, ?_, hpublic, ?_⟩
  · rw [htexts, hp.coherent.sameButSlot_iff_texts hq.coherent]
  · intro hdiffer
    rw [← Bool.not_eq_true, htexts]
    rintro ⟨-, hprivate⟩
    rcases hdiffer with hdiffer | hdiffer
    · exact hdiffer (hpublic hprivate)
    · exact hdiffer hprivate

/-- Two loaded pairs of one seed agree, though they have the private key in different slots. -/
theorem pairs_of_one_seed_agree :
    let p := ofSeedIn .privateKey Seed.zero (lit "alice")
    let q := ofSeedIn .secretKey Seed.zero (lit "alice")
    Obtained p ∧ Obtained q ∧ p.secretKey = [] ∧ q.privateKey = [] ∧ p.agrees q = true := by
  have hp : Obtained (ofSeedIn .privateKey Seed.zero (lit "alice")) :=
    .accepted (decode_record_ofSeedIn .privateKey Seed.zero (lit "alice") none)
  have hq : Obtained (ofSeedIn .secretKey Seed.zero (lit "alice")) :=
    .accepted (decode_record_ofSeedIn .secretKey Seed.zero (lit "alice") none)
  have htexts : (ofSeedIn .privateKey Seed.zero (lit "alice")).privateText =
      (ofSeedIn .secretKey Seed.zero (lit "alice")).privateText := by
    rw [hp.coherent.privateText_eq, hq.coherent.privateText_eq]
    rfl
  exact ⟨hp, hq, rfl, rfl, (agrees_iff_same_texts hp hq).1.mpr ⟨rfl, htexts⟩⟩

end KeyPair

end Keybox

import Keybox.KeyPair.Random
import Keybox.Proofs.KeyPair.Loading
import Keybox.Proofs.KeyPair.Reread

/-!
# The texts and the bytes of a pair agree

A key pair holds both keys as text and as bytes. Two of the ways to a pair start from bytes, and two
from texts that come from outside, where the bytes are what the texts are read as. Whichever way it
was made, the texts are those of the bytes.

**Results.** In every pair that was drawn, wrapped, accepted or loaded, the public key's text is the
one of its bytes, exactly one slot is in use and holds the text of the private key's bytes, both
texts are read as these bytes again, and the public key is what follows the seed in the private key.
-/

namespace Keybox

namespace KeyPair

/-- The ways in which a pair is made: drawn from a random source, wrapped around a private key that
is not looked at, accepted from a record, or loaded from a document. -/
inductive Obtained : KeyPair → Prop
  | drawn
      {source : RandomSource}
      {account : Text}
      {p : KeyPair}
      (h : generate source account = .ok p) :
      Obtained p
  | wrapped
      (rawPrivate : Bytes)
      (account : Text) :
      Obtained (ofRawPrivate rawPrivate account)
  | accepted
      {members : Members}
      {expected : Text}
      {place : Option Text}
      {p : KeyPair}
      (h : decode members expected place = .ok p) :
      Obtained p
  | loaded
      {d : Document}
      {expected : Text}
      {place : Option Text}
      {p : KeyPair}
      (h : ofDocument d expected place = .ok p) :
      Obtained p

/-- A pair whose texts are those of its raw keys, with the private key in one slot. -/
structure Coherent
    (p : KeyPair) : Prop where
  publicText : p.publicKey = KeyText.encode p.rawPublic
  oneSlot : ∃! slot, p.slot slot ≠ []
  privateText : ∀ slot, p.slot slot ≠ [] → p.slot slot = KeyText.encode p.rawPrivate
  publicHalf : p.rawPublic = p.rawPrivate.drop 32

theorem slot_ofParts
    (account publicKey : Text)
    (used : Slot)
    (privateText : Text)
    (rawPublic rawPrivate : Bytes)
    (slot : Slot) :
    (ofParts account publicKey used privateText rawPublic rawPrivate).slot slot =
      if slot = used then privateText else [] := by
  cases slot <;> cases used <;> rfl

/-- Texts that are made of raw keys agree with them, in either slot. -/
theorem coherent_ofParts
    (account : Text)
    (used : Slot)
    {rawPublic rawPrivate : Bytes}
    (hhalf : rawPublic = rawPrivate.drop 32) :
    (ofParts account (KeyText.encode rawPublic) used (KeyText.encode rawPrivate)
      rawPublic rawPrivate).Coherent := by
  have hused : ∀ slot, (ofParts account (KeyText.encode rawPublic) used
      (KeyText.encode rawPrivate) rawPublic rawPrivate).slot slot ≠ [] ↔ slot = used := by
    intro slot
    rw [slot_ofParts]
    by_cases heq : slot = used
    · simp [heq, encode_ne_nil]
    · simp [heq]
  refine ⟨rfl, ⟨used, (hused used).mpr rfl, fun slot => (hused slot).mp⟩, ?_, hhalf⟩
  intro slot hslot
  rw [slot_ofParts, if_pos ((hused slot).mp hslot)]
  rfl

/-- Wrapped pairs have the first slot in use, whatever the private key is. -/
theorem coherent_ofRawPrivate
    (rawPrivate : Bytes)
    (account : Text) :
    (ofRawPrivate rawPrivate account).Coherent :=
  coherent_ofParts account .privateKey rfl

theorem coherent_ofSeedIn
    (slot : Slot)
    (seed : Seed)
    (account : Text) :
    (ofSeedIn slot seed account).Coherent :=
  coherent_ofParts account slot seed.drop_privateKey.symm

theorem coherent_of_check
    {members : Members}
    {expected : Text}
    {p : KeyPair}
    (h : check members expected = .ok p) :
    p.Coherent := by
  obtain ⟨seed, slot, -, rfl⟩ := check_eq_ok_iff.mp h
  exact coherent_ofSeedIn slot seed expected

theorem Obtained.coherent
    {p : KeyPair}
    (h : Obtained p) :
    p.Coherent := by
  cases h with
  | @drawn source account p h =>
      cases source with
      | seed seed =>
          cases h
          exact coherent_ofSeedIn .privateKey seed account
      | unavailable cause =>
          cases h
      | broken cause =>
          cases h
  | wrapped rawPrivate account =>
      exact coherent_ofRawPrivate rawPrivate account
  | accepted h =>
      exact coherent_of_check (mapError_eq_ok_iff.mp h)
  | loaded h =>
      obtain ⟨members, -, hcheck⟩ := exists_holds_of_ofDocument h
      exact coherent_of_check hcheck

/-- **Texts and bytes agree.** However a pair was made, its texts are those of its raw keys, with
the private key's in one slot and nothing in the other, and they are read as these raw keys. -/
theorem obtained_forms_agree
    {p : KeyPair}
    (h : Obtained p) :
    p.Coherent ∧
      KeyText.decode p.publicKey = .ok p.rawPublic ∧
        ∀ slot, p.slot slot ≠ [] → KeyText.decode (p.slot slot) = .ok p.rawPrivate := by
  have hcoherent := h.coherent
  refine ⟨hcoherent, ?_, ?_⟩
  · rw [hcoherent.publicText, KeyText.decode_encode]
  · intro slot hslot
    rw [hcoherent.privateText slot hslot, KeyText.decode_encode]

/-- A record with its private key in the second slot gives a pair whose texts and bytes agree. -/
theorem forms_of_secretKey_pair_agree :
    let p := ofSeedIn .secretKey Seed.zero (lit "alice")
    Obtained p ∧ p.Coherent ∧ KeyText.decode p.publicKey = .ok p.rawPublic ∧
      KeyText.decode p.secretKey = .ok p.rawPrivate := by
  have hobtained : Obtained (ofSeedIn .secretKey Seed.zero (lit "alice")) :=
    .accepted (decode_record_ofSeedIn .secretKey Seed.zero (lit "alice") none)
  obtain ⟨hcoherent, hpublic, hprivate⟩ := obtained_forms_agree hobtained
  exact ⟨hobtained, hcoherent, hpublic, hprivate .secretKey (encode_ne_nil _)⟩

end KeyPair

end Keybox

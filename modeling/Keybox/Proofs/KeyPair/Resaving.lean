import Keybox.Proofs.KeyPair.Renderings
import Keybox.Proofs.KeyPair.Unchecked

/-!
# Loading and saving again

A document can say the same in many ways, and it may hold more than a pair needs. Loading it and
writing the pair leaves the one form that the writer has. Bytes are what makes this work: they are
no text with surrogates, so that a pair of surrogates in an account, which the writer could not tell
from the code point it stands for, is never loaded from them.

**Results.** What is written for a pair that was loaded from bytes is loaded as the same pair, and
its record has the strings that the document gave to its members.
-/

namespace Keybox

/-- An object in bytes has no pair of surrogates in the strings of its members. -/
theorem Document.Holds.unpaired
    {data : Bytes}
    {members : Members}
    (h : Document.Holds (.bytes data) members)
    {name t : Text}
    (ht : members.find? name = some (.text t)) :
    t.Unpaired := by
  obtain ⟨content, hcontent, hread⟩ := h
  have hdecode : Utf8.decode data = .ok content := mapError_eq_ok_iff.mp hcontent
  exact Json.unpaired_of_find? (Utf8.isSurrogate_of_decode hdecode) hread ht

namespace KeyPair

/-- A pair that is loaded is that of a seed, which the document's object stores. -/
theorem exists_stores_of_ofDocument
    {d : Document}
    {account : Text}
    {place : Option Text}
    {p : KeyPair}
    (h : ofDocument d account place = .ok p) :
    ∃ members seed slot, d.Holds members ∧ Stores members account seed slot ∧
      p = ofSeedIn slot seed account := by
  obtain ⟨members, hmembers, hcheck⟩ := exists_holds_of_ofDocument h
  obtain ⟨seed, slot, hstores, rfl⟩ := check_eq_ok_iff.mp hcheck
  exact ⟨members, seed, slot, hmembers, hstores, rfl⟩

theorem slot_ofSeedIn
    (slot : Slot)
    (seed : Seed)
    (account : Text) :
    (ofSeedIn slot seed account).slot slot = KeyText.encode seed.privateKey := by
  cases slot <;> rfl

/-- **Saving what was loaded is stable.** What is written for a pair that was loaded from bytes is
loaded under the same account as that pair, from a text or from its bytes. The pair's record has
the account, the public key and the one slot that counts in the document's object, with the strings
that these have there; an account that is not given is the empty one. -/
theorem saved_pair_is_loaded_again
    {data : Bytes}
    {account : Text}
    {place : Option Text}
    {p : KeyPair}
    (h : ofDocument (.bytes data) account place = .ok p) :
    (∀ d ∈ p.documents, ∀ source, ofDocument d account source = .ok p) ∧
      ∃ members slot, Document.Holds (.bytes data) members ∧
        p.record = [(accountField, p.account), (publicField, p.publicKey),
          (slot.field, p.slot slot)] ∧
        (members.find? accountField).getD (.text []) = .text p.account ∧
        members.find? publicField = some (.text p.publicKey) ∧
        members.find? slot.field = some (.text (p.slot slot)) ∧ p.slot slot ≠ [] ∧
        ∀ v, members.find? slot.other.field = some v → v.isTruthy = false := by
  obtain ⟨members, seed, slot, hmembers, hstores, rfl⟩ := exists_stores_of_ofDocument h
  have haccount : account.Unpaired := by
    have hname := hstores.account
    cases hfind : members.find? accountField with
    | none =>
        rw [hfind] at hname
        obtain rfl := Json.text.inj hname
        exact (by decide : Text.Unpaired [])
    | some v =>
        rw [hfind] at hname
        obtain rfl : v = .text account := hname
        exact hmembers.unpaired hfind
  have hdecode := decode_record_ofSeedIn slot seed account
  refine ⟨?_, members, slot, hmembers, ?_⟩
  · intro d hd source
    have haccepted : (ofSeedIn slot seed account).Accepted := ⟨_, hdecode none⟩
    rw [ofDocument_documents (haccepted.unpaired haccount) hd, hdecode source]
    rfl
  · rw [slot_ofSeedIn, record_ofSeedIn]
    refine ⟨rfl, hstores.account, hstores.publicKey, hstores.privateKey, encode_ne_nil _, ?_⟩
    intro v hv
    exact (Json.isTruthy_eq_false_iff v).mpr (hstores.otherSlot v hv)

/-- The document of another tool is ASCII. -/
theorem isAscii_of_mem_otherDocument
    {seed : Seed}
    {c : CodePoint}
    (hc : c ∈ otherDocument seed) :
    c.isAscii = true := by
  simp only [otherDocument, List.mem_append] at hc
  rcases hc with (((hc | hc) | hc) | hc) | hc
  · exact Record.isAscii_of_mem_lit (by decide) hc
  · exact KeyText.isAscii_of_mem_encode hc
  · exact Record.isAscii_of_mem_lit (by decide) hc
  · exact KeyText.isAscii_of_mem_encode hc
  · exact Record.isAscii_of_mem_lit (by decide) hc

theorem ofDocument_otherDocument
    (seed : Seed)
    (place : Option Text) :
    ofDocument (.bytes (Utf8.encode (otherDocument seed))) (otherPair seed).account place =
      .ok (otherPair seed) := by
  have htext : Document.text? (.bytes (Utf8.encode (otherDocument seed))) =
      .ok (otherDocument seed) := by
    rw [Document.text?, Utf8.decode_encode fun _ hc =>
      Utf8.isSurrogate_of_isAscii (isAscii_of_mem_otherDocument hc)]
    rfl
  have hread := Json.read_of_isObject (by decide) (isObject_otherDocument seed)
  have hreread : (otherPair seed).reread = otherPair seed :=
    reread_eq_self (decode_record_ofSeedIn .secretKey seed _ none)
  rw [ofDocument_of_object _ _ htext hread,
    (renders_otherMembers seed).decode_eq (accepted_otherPair seed) place, hreread]
  rfl

/-- The bytes of that document, in which the account is given with escapes, are loaded as its pair,
and so are the bytes of what is written for the pair. -/
theorem other_document_is_loaded_again :
    ofDocument (.bytes (Utf8.encode (otherDocument Seed.zero))) (otherPair Seed.zero).account none =
        .ok (otherPair Seed.zero) ∧
      ofDocument (.bytes (Utf8.encode (otherPair Seed.zero).json)) (otherPair Seed.zero).account
          none =
        .ok (otherPair Seed.zero) :=
  ⟨ofDocument_otherDocument Seed.zero none,
    (saved_pair_is_loaded_again (ofDocument_otherDocument Seed.zero none)).1 _ (by simp [documents])
      none⟩

end KeyPair

end Keybox

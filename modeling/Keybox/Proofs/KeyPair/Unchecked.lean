import Keybox.KeyPair.Random
import Keybox.Proofs.KeyPair.Order
import Keybox.Proofs.KeyPair.Reread

/-!
# Pairs that nobody checked

A pair can be wrapped around any bytes as its private key: whatever follows the first 32 is then its
public key, and there may be nothing. Such a pair is written like any other. It is when its document
is loaded that the checks are made, and they are made on the texts, of which every one is well
formed here.

**Results.** A wrapped pair is loaded again as it is exactly when its bytes are a seed and the public
key of that seed. With another number of bytes it is rejected as malformed, with another second half
as a mismatch. So a pair that was drawn is always loaded again.
-/

namespace Keybox

/-- Bytes are the private key of a seed when they are 64 and the second half is the public key of
the first. -/
theorem Seed.exists_privateKey_iff
    {key : Bytes} :
    (∃ seed : Seed, key = seed.privateKey) ↔
      key.length = 64 ∧ key.drop 32 = Ed25519.publicKey (key.take 32) := by
  constructor
  · rintro ⟨seed, rfl⟩
    refine ⟨?_, ?_⟩
    · rw [privateKey, List.length_append, seed.length_bytes, seed.length_publicKey]
    · rw [seed.drop_privateKey, privateKey, List.take_left' seed.length_bytes, publicKey]
  · rintro ⟨hlength, hhalf⟩
    obtain ⟨seed, half, rfl, -⟩ := RawKey.exists_seed_append hlength
    rw [List.drop_left' seed.length_bytes, List.take_left' seed.length_bytes] at hhalf
    exact ⟨seed, by rw [hhalf, privateKey, publicKey]⟩

namespace KeyPair

/-- The documents with the text of a pair: the text itself, and its bytes. -/
def documents (p : KeyPair) : List Document :=
  [.text p.json, .bytes (Utf8.encode p.json)]

theorem ofDocument_documents
    {p : KeyPair}
    (hp : p.Unpaired)
    {d : Document}
    (hd : d ∈ p.documents)
    (expected : Text)
    (place : Option Text) :
    ofDocument d expected place =
      (decode p.record.members expected place).mapError .rejected := by
  simp only [documents, List.mem_cons, List.not_mem_nil, or_false] at hd
  rcases hd with rfl | rfl
  · exact ofText_json hp expected place
  · exact ofDocument_bytes_json hp expected place

/-! ## Wrapped pairs as records -/

variable
  {raw : Bytes}
  {account : Text}

/-- Only the account of a wrapped pair comes from outside as text. -/
theorem unpaired_ofRawPrivate
    (haccount : account.Unpaired)
    (raw : Bytes) :
    (ofRawPrivate raw account).Unpaired :=
  ⟨haccount, unpaired_encode _, unpaired_encode _, (by decide : Text.Unpaired [])⟩

theorem tagged_ofRawPrivate
    (raw : Bytes)
    (account : Text) :
    Tagged (ofRawPrivate raw account).record.members .privateKey (Base58.encode (raw.drop 32))
      (Base58.encode raw) := by
  have hprivate : (ofRawPrivate raw account).record.members.find? Slot.privateKey.field =
      some (.text (KeyText.encode raw)) := by
    rw [find?_slotField]
    exact if_neg (encode_ne_nil raw)
  refine ⟨iff_of_true rfl ?_, rfl, hprivate⟩
  exact keyValue_isTruthy_iff.mp (keyValue_encode_isTruthy hprivate)

/-- The texts of a wrapped pair have their tags, in one slot, so that only the keys can be wrong. -/
theorem passes_ofRawPrivate
    (raw : Bytes)
    (account : Text) :
    ∀ before ∈ Stage.payloads.earlier,
      before.Passes (ofRawPrivate raw account).record.members account := by
  have htagged := tagged_ofRawPrivate raw account
  have hsecond : (ofRawPrivate raw account).record.members.find? Slot.secretKey.field = none := by
    rw [find?_slotField]
    rfl
  have hslots : Stage.slots.Passes (ofRawPrivate raw account).record.members account := by
    rintro ⟨-, v, hv, -⟩
    rw [hsecond] at hv
    cases hv
  have haccount : Stage.account.Passes (ofRawPrivate raw account).record.members account := rfl
  simpa [Stage.earlier, Stage.order] using
    ⟨haccount, ⟨_, htagged.publicKey⟩, hslots, ⟨_, _, htagged.populated, htagged.privateKey⟩⟩

theorem payloads_ofRawPrivate_iff :
    Stage.payloads.Passes (ofRawPrivate raw account).record.members account ↔
      raw.length = 64 := by
  rw [(tagged_ofRawPrivate raw account).payloads_iff, ← KeyText.encode, ← KeyText.encode,
    KeyText.decode_encode, KeyText.decode_encode]
  constructor
  · rintro ⟨-, _, ⟨⟩, hlength⟩
    exact hlength
  · intro hlength
    exact ⟨⟨_, rfl⟩, raw, rfl, hlength⟩

theorem keys_ofRawPrivate_iff :
    Stage.keys.Passes (ofRawPrivate raw account).record.members account ↔
      ∃ seed : Seed, raw = seed.privateKey := by
  rw [(tagged_ofRawPrivate raw account).keys_iff]
  constructor
  · rintro ⟨seed, -, hseed⟩
    exact ⟨seed, hseed⟩
  · rintro ⟨seed, rfl⟩
    exact ⟨seed, seed.drop_privateKey, rfl⟩

/-! ## What the record of a wrapped pair comes to -/

theorem check_ofRawPrivate_of_length
    (account : Text)
    (hlength : raw.length ≠ 64) :
    ∃ r, check (ofRawPrivate raw account).record.members account = .error r ∧
      r.kind = .malformedKey := by
  have hfirst : FailsFirst (ofRawPrivate raw account).record.members account .payloads :=
    ⟨fun hpasses => hlength (payloads_ofRawPrivate_iff.mp hpasses), passes_ofRawPrivate raw account⟩
  obtain ⟨r, hr, hgives⟩ := hfirst.exists_reason
  exact ⟨r, hr, hgives.kind_eq⟩

theorem check_ofRawPrivate_of_half
    (account : Text)
    (hlength : raw.length = 64)
    (hhalf : raw.drop 32 ≠ Ed25519.publicKey (raw.take 32)) :
    ∃ r, check (ofRawPrivate raw account).record.members account = .error r ∧
      r.kind = .keyMismatch := by
  have hfails : ¬ Stage.keys.Passes (ofRawPrivate raw account).record.members account := by
    rw [keys_ofRawPrivate_iff, Seed.exists_privateKey_iff]
    exact fun h => hhalf h.2
  have hbefore : ∀ before ∈ Stage.keys.earlier,
      before.Passes (ofRawPrivate raw account).record.members account := by
    have hall := passes_ofRawPrivate raw account
    intro before hbefore
    by_cases heq : before = .payloads
    · subst heq
      exact payloads_ofRawPrivate_iff.mpr hlength
    · exact hall before (by revert hbefore heq; cases before <;> decide)
  obtain ⟨r, hr, hgives⟩ := (FailsFirst.mk hfails hbefore).exists_reason
  exact ⟨r, hr, hgives.kind_eq⟩

/-- Wrapped around the private key of a seed, a pair is the seed's own. -/
theorem ofRawPrivate_privateKey
    (seed : Seed)
    (account : Text) :
    ofRawPrivate seed.privateKey account = ofSeed seed account := by
  rw [ofRawPrivate, seed.drop_privateKey]
  rfl

theorem check_ofRawPrivate_of_seed
    (seed : Seed)
    (account : Text) :
    check (ofRawPrivate seed.privateKey account).record.members account =
      .ok (ofRawPrivate seed.privateKey account) := by
  rw [ofRawPrivate_privateKey]
  exact mapError_eq_ok_iff.mp (decode_record_ofSeedIn .privateKey seed account none)

/-- **Unchecked pairs are caught when they are loaded.** The document of a pair that was wrapped
around bytes gives that pair exactly when the bytes are a seed and its public key. It is rejected as
malformed exactly when there are not 64 bytes, and for a mismatch in the remaining cases. The
document of a pair that was drawn gives that pair. -/
theorem unchecked_pair_is_caught_when_loaded
    (haccount : account.Unpaired)
    (place : Option Text) :
    (∀ raw, ∀ d ∈ (ofRawPrivate raw account).documents,
        (ofDocument d account place = .ok (ofRawPrivate raw account) ↔
            raw.length = 64 ∧ raw.drop 32 = Ed25519.publicKey (raw.take 32)) ∧
          ((∃ r, ofDocument d account place = .error (.rejected r) ∧ r.kind = .malformedKey) ↔
            raw.length ≠ 64) ∧
          ((∃ r, ofDocument d account place = .error (.rejected r) ∧ r.kind = .keyMismatch) ↔
            raw.length = 64 ∧ raw.drop 32 ≠ Ed25519.publicKey (raw.take 32))) ∧
      ∀ seed, ∃ p, generate (.seed seed) account = .ok p ∧
        ∀ d ∈ p.documents, ofDocument d account place = .ok p := by
  refine ⟨?_, ?_⟩
  · intro raw d hd
    rw [ofDocument_documents (unpaired_ofRawPrivate haccount raw) hd, decode]
    -- Each of the three outcomes excludes the other two.
    by_cases hlength : raw.length = 64
    · by_cases hhalf : raw.drop 32 = Ed25519.publicKey (raw.take 32)
      · obtain ⟨seed, rfl⟩ := Seed.exists_privateKey_iff.mpr ⟨hlength, hhalf⟩
        rw [check_ofRawPrivate_of_seed]
        refine ⟨iff_of_true rfl ⟨hlength, hhalf⟩, iff_of_false ?_ (not_not.mpr hlength),
          iff_of_false ?_ fun h => h.2 hhalf⟩
        · rintro ⟨r, ⟨⟩, -⟩
        · rintro ⟨r, ⟨⟩, -⟩
      · obtain ⟨reason, hreason, hkind⟩ := check_ofRawPrivate_of_half account
          hlength hhalf
        rw [hreason]
        refine ⟨iff_of_false ?_ fun h => hhalf h.2, iff_of_false ?_ (not_not.mpr hlength),
          iff_of_true ⟨_, rfl, hkind⟩ ⟨hlength, hhalf⟩⟩
        · rintro ⟨⟩
        · rintro ⟨r, ⟨⟩, hmalformed⟩
          cases hkind.symm.trans hmalformed
    · obtain ⟨reason, hreason, hkind⟩ := check_ofRawPrivate_of_length account hlength
      rw [hreason]
      refine ⟨iff_of_false ?_ fun h => hlength h.1, iff_of_true ⟨_, rfl, hkind⟩ hlength,
        iff_of_false ?_ fun h => hlength h.1⟩
      · rintro ⟨⟩
      · rintro ⟨r, ⟨⟩, hmismatch⟩
        cases hkind.symm.trans hmismatch
  · intro seed
    refine ⟨ofSeed seed account, rfl, ?_⟩
    intro d hd
    rw [← ofRawPrivate_privateKey] at hd ⊢
    rw [ofDocument_documents (unpaired_ofRawPrivate haccount seed.privateKey) hd, decode,
      check_ofRawPrivate_of_seed]
    rfl

/-- A seed alone makes a pair whose document is rejected as malformed, also for an account with a
quote and lone surrogates in its name. -/
theorem pair_of_bare_seed_is_caught :
    let account : Text := [0xDC00, 0xD800, chr '"']
    let p := ofRawPrivate Seed.zero.bytes account
    account.Unpaired ∧
      ∃ r, ofDocument (.text p.json) account none = .error (.rejected r) ∧
        r.kind = .malformedKey := by
  have haccount : Text.Unpaired [0xDC00, 0xD800, chr '"'] := by decide
  refine ⟨haccount, ?_⟩
  exact ((unchecked_pair_is_caught_when_loaded haccount none).1 Seed.zero.bytes _
    (List.mem_cons_self ..)).2.1.mpr (by decide)

end KeyPair

end Keybox

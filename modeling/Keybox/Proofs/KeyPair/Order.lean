import Keybox.Proofs.KeyPair.Acceptance
import Keybox.Proofs.KeyText.Codec

/-!
# The first check that fails decides

A record can be wrong in several ways at once: it can name another account, have keys without the
tag, fill both slots, and hold texts that are no keys or keys that do not belong together. What it
is rejected for is the first of these in a fixed order.

Each check is said here by what it asks of the members of a record, whether or not the checks before
it pass. Those of the private key ask about the slot that is taken: the first slot if it holds
something, else the second.

**Results.** A record is accepted when it passes all checks. Otherwise there is one check that fails
while all before it pass, and the rejection is of that check's kind.
-/

namespace Keybox

namespace KeyText

theorem isKeyText_tag_append_iff
    {p : Text} :
    IsKeyText (tag ++ p) ↔ ∀ c ∈ p, c ∈ Base58.digitText := by
  constructor
  · rintro ⟨q, heq, hq⟩
    obtain rfl := List.append_cancel_left heq
    exact hq
  · intro hp
    exact ⟨p, rfl, hp⟩

theorem decode_tag_append_eq_ok_iff
    {p : Text}
    {key : Bytes} :
    decode (tag ++ p) = .ok key ↔ Base58.decode p = .ok key := by
  rw [decode_eq_ok_iff, encode, List.append_cancel_left_eq]
  constructor
  · rintro rfl
    exact Base58.decode_encode key
  · intro h
    exact (Base58.encode_of_decode h).symm

end KeyText

namespace KeyPair

/-- The checks of a record. -/
inductive Stage where
  | account
  | publicTag
  | slots
  | privateTag
  | payloads
  | keys
deriving DecidableEq

/-- A member of that name is there and counts as present. -/
def Fills
    (members : Members)
    (name : Text) : Prop :=
  ∃ v, members.find? name = some v ∧ ¬ v.IsFalsy

/-- The slot that is taken for the private key: the first if it holds something, else the second. -/
def Populated
    (members : Members)
    (slot : Slot) : Prop :=
  slot = .privateKey ↔ Fills members Slot.privateKey.field

/-- A record with the tag on both keys, and what follows it there. -/
structure Tagged
    (members : Members)
    (slot : Slot)
    (publicPayload payload : Text) : Prop where
  populated : Populated members slot
  publicKey : members.find? publicField = some (.text (KeyText.tag ++ publicPayload))
  privateKey : members.find? slot.field = some (.text (KeyText.tag ++ payload))

namespace Stage

/-- The checks in the order in which they are made. -/
def order : List Stage :=
  [account, publicTag, slots, privateTag, payloads, keys]

/-- The checks that are made before one. -/
def earlier (stage : Stage) : List Stage :=
  order.takeWhile (· ≠ stage)

/-- The kind of error of a record that fails a check. -/
def kind : Stage → ErrorKind
  | account => .accountMismatch
  | publicTag => .unsupportedAlgorithm
  | slots => .ambiguousPrivateKey
  | privateTag => .unsupportedAlgorithm
  | payloads => .malformedKey
  | keys => .keyMismatch

/-- What a check asks of a record. An absent account is the empty one, and nothing else stands for
it. -/
def Passes
    (members : Members)
    (expected : Text) : Stage → Prop
  | account => (members.find? accountField).getD (.text []) = .text expected
  | publicTag => ∃ p, members.find? publicField = some (.text (KeyText.tag ++ p))
  | slots => ¬ (Fills members Slot.privateKey.field ∧ Fills members Slot.secretKey.field)
  | privateTag => ∃ slot p, Populated members slot ∧
      members.find? slot.field = some (.text (KeyText.tag ++ p))
  | payloads => ∃ slot publicPayload payload key, Tagged members slot publicPayload payload ∧
      (∀ c ∈ publicPayload, c ∈ Base58.digitText) ∧ (∀ c ∈ payload, c ∈ Base58.digitText) ∧
        Base58.decode payload = .ok key ∧ key.length = 64
  | keys => ∃ slot, ∃ seed : Seed,
      Tagged members slot (Base58.encode seed.publicKey) (Base58.encode seed.privateKey)

/-- The reasons of a check against a record. -/
inductive Gives : Stage → Reason → Prop
  | otherAccount
      (found : Json)
      (expected : Text) :
      Gives account (.otherAccount found expected)
  | untaggedPublic
      (found : Json) :
      Gives publicTag (.untaggedPublic found)
  | bothSlots : Gives slots .bothSlots
  | untaggedPrivate
      (slot : Slot) :
      Gives privateTag (.untaggedPrivate slot)
  | badPayload
      (fault : KeyText.Fault) :
      Gives payloads (.badPayload fault)
  | badPrivate
      (slot : Slot)
      (fault : RawKey.Fault) :
      Gives payloads (.badPrivate slot fault)
  | mismatch : Gives keys .mismatch

theorem Gives.kind_eq
    {stage : Stage}
    {r : Reason}
    (h : stage.Gives r) :
    r.kind = stage.kind := by
  cases h <;> rfl

theorem eq_or_mem_earlier
    (s t : Stage) :
    s = t ∨ s ∈ t.earlier ∨ t ∈ s.earlier := by
  cases s <;> cases t <;> decide

end Stage

/-- The check at which a record fails, having passed those before it. -/
structure FailsFirst
    (members : Members)
    (expected : Text)
    (stage : Stage) : Prop where
  fails : ¬ stage.Passes members expected
  passes : ∀ before ∈ stage.earlier, before.Passes members expected

variable
  {members : Members}
  {expected : Text}

theorem FailsFirst.unique
    {s t : Stage}
    (hs : FailsFirst members expected s)
    (ht : FailsFirst members expected t) :
    s = t := by
  rcases s.eq_or_mem_earlier t with heq | hmem | hmem
  · exact heq
  · exact absurd (ht.passes s hmem) hs.fails
  · exact absurd (hs.passes t hmem) ht.fails

/-! ## The slot that is taken -/

theorem keyValue_isTruthy_iff
    {name : Text} :
    (keyValue members name).isTruthy = true ↔ Fills members name := by
  rw [← Bool.not_eq_false, keyValue_isTruthy_eq_false_iff]
  simp only [Fills, not_forall, exists_prop]

theorem usedSlot_eq_ok_iff_populated
    {slot : Slot} :
    usedSlot members = .ok slot ↔
      Stage.slots.Passes members expected ∧ Populated members slot := by
  rw [Stage.Passes, Populated, usedSlot, ← keyValue_isTruthy_iff, ← keyValue_isTruthy_iff]
  cases (keyValue members Slot.privateKey.field).isTruthy <;>
    cases (keyValue members Slot.secretKey.field).isTruthy <;>
    cases slot <;>
    simp

theorem Populated.unique
    {slot other : Slot}
    (h : Populated members slot)
    (hother : Populated members other) :
    other = slot := by
  have hiff : other = .privateKey ↔ slot = .privateKey := Iff.trans hother (Iff.symm h)
  cases slot <;> cases other <;> simp at hiff ⊢

theorem Tagged.unique
    {slot other : Slot}
    {p p' q q' : Text}
    (h : Tagged members slot p q)
    (hother : Tagged members other p' q') :
    other = slot ∧ p' = p ∧ q' = q := by
  obtain rfl := h.populated.unique hother.populated
  have hpublic := hother.publicKey.symm.trans h.publicKey
  have hprivate := hother.privateKey.symm.trans h.privateKey
  exact ⟨rfl, List.append_cancel_left (Json.text.inj (Option.some.inj hpublic)),
    List.append_cancel_left (Json.text.inj (Option.some.inj hprivate))⟩

/-! ## What passes the checks of the keys -/

/-- Payloads pass when both texts are read, the private one as 64 bytes. -/
theorem Tagged.payloads_iff
    {slot : Slot}
    {publicPayload payload : Text}
    (h : Tagged members slot publicPayload payload) :
    Stage.payloads.Passes members expected ↔
      (∃ rawPublic, KeyText.decode (KeyText.tag ++ publicPayload) = .ok rawPublic) ∧
        ∃ rawPrivate, KeyText.decode (KeyText.tag ++ payload) = .ok rawPrivate ∧
          rawPrivate.length = 64 := by
  constructor
  · rintro ⟨_, p, q, key, htagged, hp, -, hkey, hlength⟩
    obtain ⟨-, rfl, rfl⟩ := h.unique htagged
    exact ⟨KeyText.exists_decode_iff_isKeyText.mpr (KeyText.isKeyText_tag_append_iff.mpr hp),
      key, KeyText.decode_tag_append_eq_ok_iff.mpr hkey, hlength⟩
  · rintro ⟨hpublic, key, hkey, hlength⟩
    have hdigits := KeyText.exists_decode_iff_isKeyText.mp hpublic
    have hdigits' := KeyText.exists_decode_iff_isKeyText.mp ⟨key, hkey⟩
    exact ⟨slot, publicPayload, payload, key, h, KeyText.isKeyText_tag_append_iff.mp hdigits,
      KeyText.isKeyText_tag_append_iff.mp hdigits', KeyText.decode_tag_append_eq_ok_iff.mp hkey,
      hlength⟩

/-- Keys pass when both texts are those of one seed. -/
theorem Tagged.keys_iff
    {slot : Slot}
    {rawPublic rawPrivate : Bytes}
    (h : Tagged members slot (Base58.encode rawPublic) (Base58.encode rawPrivate)) :
    Stage.keys.Passes members expected ↔
      ∃ seed : Seed, rawPublic = seed.publicKey ∧ rawPrivate = seed.privateKey := by
  constructor
  · rintro ⟨_, seed, htagged⟩
    obtain ⟨-, hpublic, hprivate⟩ := h.unique htagged
    exact ⟨seed, (Base58.encode_injective hpublic).symm, (Base58.encode_injective hprivate).symm⟩
  · rintro ⟨seed, rfl, rfl⟩
    exact ⟨slot, seed, h⟩

/-! ## Accepted and rejected records -/

/-- An accepted record passes every check. -/
theorem passes_of_check_eq_ok
    {p : KeyPair}
    (h : check members expected = .ok p)
    (stage : Stage) :
    stage.Passes members expected := by
  obtain ⟨seed, slot, hstores, -⟩ := check_eq_ok_iff.mp h
  have hslot : usedSlot members = .ok slot :=
    usedSlot_eq_ok_iff.mpr
      ⟨(keyValue_isTruthy_eq_false_iff members slot.other.field).mpr hstores.otherSlot,
        fun _ => keyValue_encode_isTruthy hstores.privateKey⟩
  obtain ⟨hslots, hpopulated⟩ : Stage.slots.Passes members expected ∧ Populated members slot :=
    usedSlot_eq_ok_iff_populated.mp hslot
  have htagged : Tagged members slot (Base58.encode seed.publicKey)
      (Base58.encode seed.privateKey) :=
    ⟨hpopulated, hstores.publicKey, hstores.privateKey⟩
  cases stage with
  | account =>
      exact hstores.account
  | publicTag =>
      exact ⟨_, htagged.publicKey⟩
  | slots =>
      exact hslots
  | privateTag =>
      exact ⟨slot, _, hpopulated, htagged.privateKey⟩
  | payloads =>
      exact htagged.payloads_iff.mpr ⟨⟨_, KeyText.decode_encode _⟩, _, KeyText.decode_encode _,
        by rw [Seed.privateKey, List.length_append, seed.length_bytes, seed.length_publicKey]⟩
  | keys =>
      exact ⟨slot, seed, htagged⟩

/-! ### A check that fails -/

theorem account_of_error
    {r : Reason}
    (h : checkAccount members expected = .error r) :
    ¬ Stage.account.Passes members expected ∧ Stage.account.Gives r := by
  constructor
  · intro hpasses
    rw [checkAccount_eq_ok_iff.mpr ⟨rfl, hpasses⟩] at h
    cases h
  · rw [checkAccount] at h
    split at h
    · split at h
      · cases h
      · obtain rfl := Except.error.inj h
        exact .otherAccount _ _
    · obtain rfl := Except.error.inj h
      exact .otherAccount _ _

theorem publicTag_of_error
    {r : Reason}
    (h : checkPublic members = .error r) :
    ¬ Stage.publicTag.Passes members expected ∧ Stage.publicTag.Gives r := by
  constructor
  · rintro ⟨p, hp⟩
    rw [checkPublic_eq_ok_iff.mpr ⟨hp, KeyText.isTagged_tag_append p⟩] at h
    cases h
  · rw [checkPublic] at h
    split at h
    · cases h
    · obtain rfl := Except.error.inj h
      exact .untaggedPublic _

theorem slots_of_error
    {r : Reason}
    (h : usedSlot members = .error r) :
    ¬ Stage.slots.Passes members expected ∧ Stage.slots.Gives r := by
  rw [usedSlot] at h
  split at h
  · next hfirst =>
    split at h
    · next hsecond =>
      obtain rfl := Except.error.inj h
      have hboth := And.intro (keyValue_isTruthy_iff.mp hfirst) (keyValue_isTruthy_iff.mp hsecond)
      exact ⟨not_not.mpr hboth, .bothSlots⟩
    · cases h
  · cases h

theorem privateTag_of_error
    {slot : Slot}
    (hpopulated : Populated members slot)
    {r : Reason}
    (h : checkPrivate members slot = .error r) :
    ¬ Stage.privateTag.Passes members expected ∧ Stage.privateTag.Gives r := by
  constructor
  · rintro ⟨other, p, hother, hp⟩
    obtain rfl := hpopulated.unique hother
    rw [checkPrivate_eq_ok_iff.mpr ⟨hp, KeyText.isTagged_tag_append p⟩] at h
    cases h
  · rw [checkPrivate] at h
    split at h
    · cases h
    · obtain rfl := Except.error.inj h
      exact .untaggedPrivate _

section Keys

variable
  {slot : Slot}
  {publicPayload payload : Text}

theorem Tagged.not_payloads_of_public
    (h : Tagged members slot publicPayload payload)
    {fault : KeyText.Fault}
    (hfault : KeyText.decode (KeyText.tag ++ publicPayload) = .error fault) :
    ¬ Stage.payloads.Passes members expected := by
  rw [h.payloads_iff, hfault]
  rintro ⟨⟨_, ⟨⟩⟩, -⟩

theorem Tagged.not_payloads_of_private
    (h : Tagged members slot publicPayload payload)
    {fault : KeyText.Fault}
    (hfault : KeyText.decode (KeyText.tag ++ payload) = .error fault) :
    ¬ Stage.payloads.Passes members expected := by
  rw [h.payloads_iff, hfault]
  rintro ⟨-, _, ⟨⟩, -⟩

/-- A private key from which no public key is derived has another length. -/
theorem Tagged.not_payloads_of_length
    (h : Tagged members slot publicPayload payload)
    {rawPrivate : Bytes}
    (hprivate : KeyText.decode (KeyText.tag ++ payload) = .ok rawPrivate)
    {fault : RawKey.Fault}
    (hfault : RawKey.derivePublic rawPrivate = .error fault) :
    ¬ Stage.payloads.Passes members expected := by
  rw [h.payloads_iff, hprivate]
  rintro ⟨-, _, ⟨⟩, hlength⟩
  obtain ⟨derived, hderived⟩ := RawKey.exists_derivePublic hlength
  rw [hfault] at hderived
  cases hderived

theorem Tagged.payloads_and_not_keys
    (h : Tagged members slot publicPayload payload)
    {rawPublic rawPrivate derived : Bytes}
    (hpublic : KeyText.decode (KeyText.tag ++ publicPayload) = .ok rawPublic)
    (hprivate : KeyText.decode (KeyText.tag ++ payload) = .ok rawPrivate)
    (hderived : RawKey.derivePublic rawPrivate = .ok derived)
    (hmismatch : rawPublic.length ≠ 32 ∨ rawPublic ≠ derived ∨ rawPrivate.drop 32 ≠ derived) :
    Stage.payloads.Passes members expected ∧ ¬ Stage.keys.Passes members expected := by
  obtain ⟨seed, half, hsplit, hhalf, -⟩ := RawKey.derivePublic_eq_ok_iff.mp hderived
  have hlength : rawPrivate.length = 64 := by
    rw [hsplit, List.length_append, seed.length_bytes, hhalf]
  refine ⟨h.payloads_iff.mpr ⟨⟨rawPublic, hpublic⟩, rawPrivate, hprivate, hlength⟩, ?_⟩
  obtain rfl : publicPayload = Base58.encode rawPublic :=
    List.append_cancel_left (KeyText.decode_eq_ok_iff.mp hpublic)
  obtain rfl : payload = Base58.encode rawPrivate :=
    List.append_cancel_left (KeyText.decode_eq_ok_iff.mp hprivate)
  rw [h.keys_iff]
  intro hseed
  obtain ⟨other, hpublicKey, hprivateKey⟩ := hseed
  obtain ⟨hother, hmatch⟩ :=
    RawKey.derivePublic_matches_iff.mpr ⟨other, hpublicKey, hprivateKey, rfl⟩
  rw [hderived] at hother
  obtain rfl := Except.ok.inj hother
  exact hmatch hmismatch

end Keys

/-- A rejected record fails a check after it passed those before it, and the reason is that
check's. -/
theorem failsFirst_of_check_eq_error
    {r : Reason}
    (h : check members expected = .error r) :
    ∃ stage, FailsFirst members expected stage ∧ stage.Gives r := by
  simp only [check, bind_eq_error_iff, mapError_eq_error_iff, mapError_eq_ok_iff] at h
  -- One case for each check that can fail; what the checks before it passed goes into the next.
  rcases h with h | ⟨account, haccount, h⟩
  · obtain ⟨hfails, hgives⟩ := account_of_error h
    exact ⟨.account, ⟨hfails, by simp [Stage.earlier, Stage.order]⟩, hgives⟩
  obtain ⟨rfl, hname⟩ := checkAccount_eq_ok_iff.mp haccount
  have hfirst : Stage.account.Passes members account := hname
  rcases h with h | ⟨publicKey, hpublic, h⟩
  · obtain ⟨hfails, hgives⟩ := publicTag_of_error h
    exact ⟨.publicTag, ⟨hfails, by simpa [Stage.earlier, Stage.order] using hfirst⟩, hgives⟩
  obtain ⟨hpublicFound, htag⟩ := checkPublic_eq_ok_iff.mp hpublic
  obtain ⟨publicPayload, rfl⟩ := KeyText.isTagged_iff.mp htag
  have hsecond : Stage.publicTag.Passes members account := ⟨publicPayload, hpublicFound⟩
  rcases h with h | ⟨slot, hslot, h⟩
  · obtain ⟨hfails, hgives⟩ := slots_of_error h
    exact ⟨.slots, ⟨hfails, by simpa [Stage.earlier, Stage.order] using ⟨hfirst, hsecond⟩⟩, hgives⟩
  obtain ⟨hthird, hpopulated⟩ : Stage.slots.Passes members account ∧ Populated members slot :=
    usedSlot_eq_ok_iff_populated.mp hslot
  rcases h with h | ⟨privateText, hprivate, h⟩
  · obtain ⟨hfails, hgives⟩ := privateTag_of_error hpopulated h
    exact ⟨.privateTag,
      ⟨hfails, by simpa [Stage.earlier, Stage.order] using ⟨hfirst, hsecond, hthird⟩⟩, hgives⟩
  obtain ⟨hprivateFound, htag⟩ := checkPrivate_eq_ok_iff.mp hprivate
  obtain ⟨payload, rfl⟩ := KeyText.isTagged_iff.mp htag
  have hfourth : Stage.privateTag.Passes members account :=
    ⟨slot, payload, hpopulated, hprivateFound⟩
  have htagged : Tagged members slot publicPayload payload :=
    ⟨hpopulated, hpublicFound, hprivateFound⟩
  -- From here on the texts of both keys are known, and three steps can find them malformed.
  have hbefore : ∀ before ∈ Stage.payloads.earlier, before.Passes members account := by
    simpa [Stage.earlier, Stage.order] using ⟨hfirst, hsecond, hthird, hfourth⟩
  rcases h with ⟨fault, hfault, rfl⟩ | ⟨rawPublic, hrawPublic, h⟩
  · exact ⟨.payloads, ⟨htagged.not_payloads_of_public hfault, hbefore⟩, .badPayload fault⟩
  rcases h with ⟨fault, hfault, rfl⟩ | ⟨rawPrivate, hrawPrivate, h⟩
  · exact ⟨.payloads, ⟨htagged.not_payloads_of_private hfault, hbefore⟩, .badPayload fault⟩
  rcases h with ⟨fault, hfault, rfl⟩ | ⟨derived, hderived, h⟩
  · exact ⟨.payloads, ⟨htagged.not_payloads_of_length hrawPrivate hfault, hbefore⟩,
      .badPrivate slot fault⟩
  split at h
  · next hmismatch =>
    obtain rfl := Except.error.inj h
    obtain ⟨hfifth, hfails⟩ : Stage.payloads.Passes members account ∧
        ¬ Stage.keys.Passes members account :=
      htagged.payloads_and_not_keys hrawPublic hrawPrivate hderived hmismatch
    exact ⟨.keys, ⟨hfails, by
      simpa [Stage.earlier, Stage.order] using ⟨hfirst, hsecond, hthird, hfourth, hfifth⟩⟩,
      .mismatch⟩
  · cases h

/-- A record that fails a check first is rejected for a reason of that check. -/
theorem FailsFirst.exists_reason
    {stage : Stage}
    (h : FailsFirst members expected stage) :
    ∃ r, check members expected = .error r ∧ stage.Gives r := by
  cases hcheck : check members expected with
  | ok p =>
      exact absurd (passes_of_check_eq_ok hcheck stage) h.fails
  | error r =>
      obtain ⟨other, hother, hgives⟩ := failsFirst_of_check_eq_error hcheck
      obtain rfl := h.unique hother
      exact ⟨r, rfl, hgives⟩

/-- **The first check that fails decides.** A record is accepted when it passes all checks, and the
kind of its rejection is the one of the check that it fails after it has passed all those before. -/
theorem first_failing_check_decides
    (members : Members)
    (expected : Text)
    (place : Option Text) :
    ((∃ p, decode members expected place = .ok p) ↔
        ∀ stage : Stage, stage.Passes members expected) ∧
      ∀ kind, (∃ r, decode members expected place = .error r ∧ r.kind = kind) ↔
        ∃ stage, FailsFirst members expected stage ∧ stage.kind = kind := by
  simp only [decode, mapError_eq_ok_iff, mapError_eq_error_iff]
  constructor
  · constructor
    · rintro ⟨p, hp⟩
      exact passes_of_check_eq_ok hp
    · intro hpasses
      cases hcheck : check members expected with
      | ok p =>
          exact ⟨p, rfl⟩
      | error r =>
          obtain ⟨stage, hfirst, -⟩ := failsFirst_of_check_eq_error hcheck
          exact absurd (hpasses stage) hfirst.fails
  · intro kind
    constructor
    · rintro ⟨r, ⟨reason, hreason, rfl⟩, rfl⟩
      obtain ⟨stage, hfirst, hgives⟩ := failsFirst_of_check_eq_error hreason
      exact ⟨stage, hfirst, hgives.kind_eq.symm⟩
    · rintro ⟨stage, hfirst, rfl⟩
      obtain ⟨reason, hreason, hgives⟩ := hfirst.exists_reason
      exact ⟨_, ⟨reason, hreason, rfl⟩, hgives.kind_eq⟩

/-- A record in which everything is wrong is rejected for its account. -/
example :
    decode [(accountField, .text (lit "bob")), (publicField, .int 7),
      (Slot.privateKey.field, .text (lit "key")), (Slot.secretKey.field, .text (lit "key"))]
        (lit "alice") none =
      .error ⟨.otherAccount (.text (lit "bob")) (lit "alice"), none⟩ :=
  rfl

end KeyPair

end Keybox

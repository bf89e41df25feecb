import Keybox.Proofs.KeyPair.Reread
import Mathlib.Logic.Equiv.Basic

/-!
# The two slots are interchangeable

A record may hold the private key under either of two names. The checks do not treat them alike: the
first slot is looked at before the second, and when neither is in use it is the second that is
missed. Which of the two names a record uses makes no difference all the same.

**Results.** A record whose slots hold each other's values is accepted when the record is. The two
pairs agree, with the texts of their slots exchanged. If it is rejected, then for the same reason,
but that a slot in the message may be the other one.
-/

namespace Keybox

@[simp] theorem Slot.other_other
    (slot : Slot) :
    slot.other.other = slot := by
  cases slot <;> rfl

/-! ## Reasons that name a slot -/

namespace Reason

/-- The reason with the other slot, if it names one. -/
def exchangeSlot : Reason → Reason
  | untaggedPrivate slot => untaggedPrivate slot.other
  | badPrivate slot fault => badPrivate slot.other fault
  | r => r

theorem kind_exchangeSlot
    (r : Reason) :
    r.exchangeSlot.kind = r.kind := by
  cases r <;> rfl

theorem namesPlace_exchangeSlot
    (r : Reason) :
    r.exchangeSlot.namesPlace = r.namesPlace := by
  cases r <;> rfl

/-- What a reason says with the other slot differs in the slot's name alone. -/
theorem message_exchangeSlot
    (r : Reason) :
    r.exchangeSlot.message = r.message ∨
      ∃ before slot after, r.message = before ++ Slot.field slot ++ after ∧
        r.exchangeSlot.message = before ++ slot.other.field ++ after := by
  cases r with
  | untaggedPrivate slot =>
      exact Or.inr ⟨_, slot, _, rfl, rfl⟩
  | badPrivate slot fault =>
      refine Or.inr ⟨lit "keystore: parsed ", slot, lit " is malformed: " ++ fault.message, ?_, ?_⟩
      · simp only [message, List.append_assoc]
      · simp only [exchangeSlot, message, List.append_assoc]
  | _ =>
      exact Or.inl rfl

end Reason

/-- A place adds the same to every message of a kind. -/
theorem ErrorKind.exists_describe_eq_append
    (k : ErrorKind)
    (place : Option Text) :
    ∃ added, ∀ message, k.describe message place = message ++ added := by
  cases place with
  | none =>
      exact ⟨[], fun message => (List.append_nil message).symm⟩
  | some p =>
      simp only [describe]
      split
      · exact ⟨lit ": " ++ p, fun message => List.append_assoc _ _ _⟩
      · exact ⟨[], fun message => (List.append_nil message).symm⟩

namespace Rejection

/-- Two rejections that are the same, but that one may name the other slot where one is named. -/
structure SameButSlot
    (r s : Rejection) : Prop where
  kind : s.kind = r.kind
  place : s.place = r.place
  reason : s.reason = r.reason ∨ s.reason = r.reason.exchangeSlot
  message : s.message = r.message ∨
    ∃ before slot after, r.message = before ++ Slot.field slot ++ after ∧
      s.message = before ++ slot.other.field ++ after

theorem sameButSlot_refl
    (r : Rejection) :
    r.SameButSlot r :=
  ⟨rfl, rfl, Or.inl rfl, Or.inl rfl⟩

theorem sameButSlot_exchangeSlot
    (place : Option Text)
    (r : Reason) :
    (ofReason place r).SameButSlot (ofReason place r.exchangeSlot) := by
  have hplace : (ofReason place r.exchangeSlot).place = (ofReason place r).place := by
    simp only [ofReason, r.namesPlace_exchangeSlot]
  refine ⟨r.kind_exchangeSlot, hplace, Or.inr rfl, ?_⟩
  obtain ⟨added, hadded⟩ := r.kind.exists_describe_eq_append (ofReason place r).place
  have hmessage : (ofReason place r).message = r.message ++ added := hadded r.message
  have hexchanged : (ofReason place r.exchangeSlot).message = r.exchangeSlot.message ++ added := by
    rw [message, hplace, kind]
    change ErrorKind.describe r.exchangeSlot.kind r.exchangeSlot.message _ = _
    rw [r.kind_exchangeSlot, hadded]
  rw [hmessage, hexchanged]
  rcases r.message_exchangeSlot with heq | ⟨before, slot, after, hslot, hother⟩
  · exact Or.inl (congrArg (· ++ added) heq)
  · refine Or.inr ⟨before, slot, after ++ added, ?_, ?_⟩
    · rw [hslot, List.append_assoc _ after]
    · rw [hother, List.append_assoc _ after]

end Rejection

namespace KeyPair

/-! ## Records and pairs with their slots exchanged -/

/-- Two records with each other's slots: what the one holds in a slot the other holds in the other
slot, and a slot that is absent in the one has the other slot absent in the other. All other members
are the same. -/
structure Exchanged
    (members others : Members) : Prop where
  slots : ∀ slot : Slot, others.find? slot.field = members.find? slot.other.field
  rest : ∀ name, (∀ slot : Slot, name ≠ slot.field) → others.find? name = members.find? name

/-- The members with each slot under the other slot's name. -/
def exchangeMembers
    (members : Members) : Members :=
  members.map fun m => (Equiv.swap Slot.privateKey.field Slot.secretKey.field m.1, m.2)

/-- The pair with the texts of its slots exchanged. -/
def exchangeSlots
    (p : KeyPair) : KeyPair :=
  { p with privateKey := p.secretKey, secretKey := p.privateKey }

theorem find?_exchangeMembers
    (members : Members)
    (name : Text) :
    (exchangeMembers members).find? name =
      members.find? (Equiv.swap Slot.privateKey.field Slot.secretKey.field name) := by
  induction members with
  | nil =>
      rfl
  | cons m rest ih =>
      have hname : Equiv.swap Slot.privateKey.field Slot.secretKey.field m.1 = name ↔
          m.1 = Equiv.swap Slot.privateKey.field Slot.secretKey.field name := by
        rw [Equiv.swap_apply_eq_iff]
      rw [exchangeMembers, List.map_cons, Members.find?, Members.find?]
      exact if_congr hname rfl ih

/-- Every record has one with its slots exchanged. -/
theorem exchanged_exchangeMembers
    (members : Members) :
    Exchanged members (exchangeMembers members) where
  slots := by
    intro slot
    rw [find?_exchangeMembers]
    cases slot with
    | privateKey =>
        rw [Equiv.swap_apply_left]
        rfl
    | secretKey =>
        rw [Equiv.swap_apply_right]
        rfl
  rest := by
    intro name hname
    rw [find?_exchangeMembers, Equiv.swap_apply_of_ne_of_ne (hname .privateKey) (hname .secretKey)]

theorem exchangeSlots_ofParts
    (account publicKey : Text)
    (slot : Slot)
    (privateText : Text)
    (rawPublic rawPrivate : Bytes) :
    (ofParts account publicKey slot privateText rawPublic rawPrivate).exchangeSlots =
      ofParts account publicKey slot.other privateText rawPublic rawPrivate := by
  cases slot <;> rfl

theorem slot_exchangeSlots
    (p : KeyPair)
    (slot : Slot) :
    p.exchangeSlots.slot slot = p.slot slot.other := by
  cases slot <;> rfl

theorem agrees_exchangeSlots
    (p : KeyPair) :
    p.agrees p.exchangeSlots = true := by
  simp [agrees, exchangeSlots]

variable
  {members others : Members}

namespace Exchanged

theorem find?_eq
    (h : Exchanged members others)
    {name : Text}
    (hname : name ∈ [accountField, publicField]) :
    others.find? name = members.find? name := by
  refine h.rest name fun slot => ?_
  rcases List.mem_pair.mp hname with rfl | rfl <;> cases slot <;> decide

theorem keyValue_slot
    (h : Exchanged members others)
    (slot : Slot) :
    keyValue others slot.field = keyValue members slot.other.field := by
  rw [keyValue, keyValue, h.slots]

theorem checkAccount_eq
    (h : Exchanged members others)
    (expected : Text) :
    checkAccount others expected = checkAccount members expected := by
  rw [checkAccount, checkAccount, h.find?_eq (List.mem_pair.mpr (Or.inl rfl))]

theorem checkPublic_eq
    (h : Exchanged members others) :
    checkPublic others = checkPublic members := by
  rw [checkPublic, checkPublic, keyValue, keyValue, h.find?_eq (List.mem_pair.mpr (Or.inr rfl))]

end Exchanged

/-! ## Checking a slot -/

/-- The checks that are left when it is known which slot is taken. -/
def checkIn
    (members : Members)
    (account publicKey : Text)
    (slot : Slot) : Except Reason KeyPair := do
  let privateText ← checkPrivate members slot
  let rawPublic ← (KeyText.decode publicKey).mapError .badPayload
  let rawPrivate ← (KeyText.decode privateText).mapError .badPayload
  let derived ← (RawKey.derivePublic rawPrivate).mapError (.badPrivate slot)
  if rawPublic.length ≠ 32 ∨ rawPublic ≠ derived ∨ rawPrivate.drop 32 ≠ derived then
    .error .mismatch
  else
    .ok (ofParts account publicKey slot privateText rawPublic rawPrivate)

theorem check_eq_checkIn
    (members : Members)
    (expected : Text) :
    check members expected =
      (do
        let account ← checkAccount members expected
        let publicKey ← checkPublic members
        let slot ← usedSlot members
        checkIn members account publicKey slot) :=
  rfl

/-- A slot that holds nothing is missed. -/
theorem checkIn_of_not_truthy
    {slot : Slot}
    (h : (keyValue members slot.field).isTruthy = false)
    (account publicKey : Text) :
    checkIn members account publicKey slot = .error (.untaggedPrivate slot) := by
  have htag : (keyValue members slot.field).tagged? = none := by
    rw [Option.eq_none_iff_forall_ne_some]
    intro t ht
    obtain ⟨hvalue, htagged⟩ := Json.tagged?_eq_some_iff.mp ht
    obtain ⟨p, rfl⟩ := KeyText.isTagged_iff.mp htagged
    rw [hvalue, Json.isTruthy, Bool.not_eq_false', List.isEmpty_iff] at h
    exact tag_append_ne_nil p h
  rw [checkIn, checkPrivate, htag]
  rfl

/-- What a record comes to, and what it comes to with its slots exchanged. -/
inductive Mirrors : Except Reason KeyPair → Except Reason KeyPair → Prop
  | pair
      (p : KeyPair) :
      Mirrors (.ok p) (.ok p.exchangeSlots)
  | same
      (r : Reason) :
      Mirrors (.error r) (.error r)
  | otherSlot
      (r : Reason) :
      Mirrors (.error r) (.error r.exchangeSlot)

theorem Exchanged.mirrors_checkIn
    (h : Exchanged members others)
    (account publicKey : Text)
    (slot : Slot) :
    Mirrors (checkIn members account publicKey slot)
      (checkIn others account publicKey slot.other) := by
  have hvalue : keyValue others slot.other.field = keyValue members slot.field := by
    rw [h.keyValue_slot, Slot.other_other]
  rw [checkIn, checkIn, checkPrivate, checkPrivate, hvalue]
  cases (keyValue members slot.field).tagged? with
  | none =>
      exact .otherSlot (.untaggedPrivate slot)
  | some privateText =>
      rw [ok_bind, ok_bind]
      cases KeyText.decode publicKey with
      | error fault =>
          exact .same (.badPayload fault)
      | ok rawPublic =>
          rw [mapError_ok, ok_bind, ok_bind]
          cases KeyText.decode privateText with
          | error fault =>
              exact .same (.badPayload fault)
          | ok rawPrivate =>
              rw [mapError_ok, ok_bind, ok_bind]
              cases RawKey.derivePublic rawPrivate with
              | error fault =>
                  exact .otherSlot (.badPrivate slot fault)
              | ok derived =>
                  rw [mapError_ok, mapError_ok, ok_bind, ok_bind]
                  split
                  · exact .same .mismatch
                  · rw [← exchangeSlots_ofParts]
                    exact .pair _

/-- One slot in use is the other one in the other record. Only when neither is in use do the checks
of both records come to the same slot, which is then missed in both. -/
theorem Exchanged.mirrors_check
    (h : Exchanged members others)
    (expected : Text) :
    Mirrors (check members expected) (check others expected) := by
  rw [check_eq_checkIn, check_eq_checkIn, h.checkAccount_eq, h.checkPublic_eq]
  cases checkAccount members expected with
  | error r =>
      exact .same r
  | ok account =>
      rw [ok_bind, ok_bind]
      cases checkPublic members with
      | error r =>
          exact .same r
      | ok publicKey =>
          rw [ok_bind, ok_bind, usedSlot, usedSlot, h.keyValue_slot, h.keyValue_slot, Slot.other,
            Slot.other]
          cases hfirst : (keyValue members Slot.privateKey.field).isTruthy with
          | true =>
              cases (keyValue members Slot.secretKey.field).isTruthy with
              | true =>
                  exact .same .bothSlots
              | false =>
                  exact h.mirrors_checkIn account publicKey .privateKey
          | false =>
              cases hsecond : (keyValue members Slot.secretKey.field).isTruthy with
              | true =>
                  exact h.mirrors_checkIn account publicKey .secretKey
              | false =>
                  have hother : (keyValue others Slot.secretKey.field).isTruthy = false := by
                    rw [h.keyValue_slot]
                    exact hfirst
                  change Mirrors (checkIn members account publicKey .secretKey)
                    (checkIn others account publicKey .secretKey)
                  rw [checkIn_of_not_truthy hsecond, checkIn_of_not_truthy hother]
                  exact .same (.untaggedPrivate .secretKey)

/-- **The slots are interchangeable.** A record with the values of its slots exchanged is accepted
exactly when the record is. The two pairs agree and have the same public key and raw keys, and each
has in a slot what the other has in the other slot. The two rejections are of the same kind, and
their messages differ at most in the name of a slot. -/
theorem slots_are_interchangeable
    (h : Exchanged members others)
    (expected : Text)
    (place : Option Text) :
    ((∃ q, decode others expected place = .ok q) ↔ ∃ p, decode members expected place = .ok p) ∧
      (∀ p q, decode members expected place = .ok p → decode others expected place = .ok q →
        p.agrees q = true ∧ q.publicKey = p.publicKey ∧ q.rawPublic = p.rawPublic ∧
          q.rawPrivate = p.rawPrivate ∧ ∀ slot : Slot, q.slot slot = p.slot slot.other) ∧
      ∀ r s, decode members expected place = .error r → decode others expected place = .error s →
        r.SameButSlot s := by
  have hmirrors := h.mirrors_check expected
  rw [decode, decode]
  generalize check members expected = result, check others expected = otherResult at hmirrors
  cases hmirrors with
  | pair p =>
      rw [mapError_ok, mapError_ok]
      refine ⟨iff_of_true ⟨_, rfl⟩ ⟨_, rfl⟩, ?_, ?_⟩
      · rintro _ _ ⟨⟩ ⟨⟩
        exact ⟨p.agrees_exchangeSlots, rfl, rfl, rfl, p.slot_exchangeSlots⟩
      · rintro _ _ ⟨⟩
  | same r =>
      rw [mapError_error]
      refine ⟨Iff.rfl, ?_, ?_⟩
      · rintro _ _ ⟨⟩
      · rintro _ _ ⟨⟩ ⟨⟩
        exact Rejection.sameButSlot_refl _
  | otherSlot r =>
      rw [mapError_error, mapError_error]
      refine ⟨iff_of_false ?_ ?_, ?_, ?_⟩
      · rintro ⟨_, ⟨⟩⟩
      · rintro ⟨_, ⟨⟩⟩
      · rintro _ _ ⟨⟩
      · rintro _ _ ⟨⟩ ⟨⟩
        exact Rejection.sameButSlot_exchangeSlot place r

/-- The record of a pair with its private key in the first slot is accepted as well with the key in
the second slot. -/
theorem first_slot_is_second_slot :
    let members := (ofSeedIn .privateKey Seed.zero (lit "alice")).record.members
    Exchanged members (exchangeMembers members) ∧
      ∃ p q, decode members (lit "alice") none = .ok p ∧
        decode (exchangeMembers members) (lit "alice") none = .ok q ∧ p.agrees q = true ∧
          q.secretKey = KeyText.encode Seed.zero.privateKey := by
  have hexchanged :=
    exchanged_exchangeMembers (ofSeedIn .privateKey Seed.zero (lit "alice")).record.members
  have hp := decode_record_ofSeedIn .privateKey Seed.zero (lit "alice") none
  obtain ⟨haccepted, hpairs, -⟩ := slots_are_interchangeable hexchanged (lit "alice") none
  obtain ⟨q, hq⟩ := haccepted.mpr ⟨_, hp⟩
  obtain ⟨hagrees, -, -, -, hslots⟩ := hpairs _ q hp hq
  exact ⟨hexchanged, _, q, hp, hq, hagrees, hslots .secretKey⟩

end KeyPair

end Keybox

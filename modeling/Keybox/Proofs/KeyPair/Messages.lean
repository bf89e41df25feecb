import Keybox.Proofs.Json.Strings
import Keybox.Proofs.KeyPair.Acceptance
import Keybox.Proofs.Text.Occurrence

/-!
# What rejections show of a private key

A rejection of a record shows the payload of the record's private key in one situation that can
occur: the record gets as far as the reading of its keys, and the payload has blanks around it. The
fault about the blanks quotes the whole text. All other reasons show texts from outside the slot,
single code points and positions. A position is a numeral, and so it can hold a payload in
principle, but only in a text of more code points than can be stored.
-/

namespace Keybox

/-! ## Short texts -/

namespace CodePoint

theorem length_quotedWith_le
    (quote c : CodePoint) :
    (quotedWith quote c).length ≤ 10 := by
  rw [quotedWith]
  split_ifs
  · simp
  · decide
  · decide
  · decide
  · simp
  · rw [escaped]
    split_ifs <;> simp [lit]

end CodePoint

namespace Text

theorem length_quoted_singleton_le
    (c : CodePoint) :
    (quoted [c]).length ≤ 12 := by
  have h := CodePoint.length_quotedWith_le (quoteFor [c]) c
  simp only [quoted, List.flatMap_cons, List.flatMap_nil, List.append_nil, List.length_append,
    List.length_cons, List.length_nil]
  omega

/-- The run that is reported lies within the text. -/
theorem notAscii?_bounds
    {t : Text}
    {position : Nat}
    {cause : Unencodable}
    (h : notAscii? position t = some cause) :
    cause.start < cause.stop ∧ cause.stop ≤ position + t.length := by
  induction t generalizing position with
  | nil =>
      cases h
  | cons c rest ih =>
      rw [notAscii?] at h
      split at h
      · obtain ⟨hlt, hle⟩ := ih h
        rw [List.length_cons]
        exact ⟨hlt, by omega⟩
      · obtain rfl := Option.some.inj h
        have hrun : (rest.takeWhile fun d => !d.isAscii).length ≤ rest.length :=
          (List.takeWhile_prefix _).length_le
        rw [List.length_cons]
        exact ⟨by dsimp only; omega, by dsimp only; omega⟩

end Text

namespace Base58

namespace IsPayload

variable {s : Text}

/-- A run at positions that can be counted is reported by short texts alone. -/
theorem lacks_unencodable
    (hs : IsPayload s)
    {cause : Unencodable}
    (hstart : cause.start < 10 ^ 63)
    (hstop : cause.stop ≤ 10 ^ 63) :
    cause.message.Lacks s := by
  have hcodec : cause.codecName.Lacks s := by
    apply hs.lacks_of_isShort
    cases h : cause.encoding <;> rw [Unencodable.codecName, h] <;> decide
  have hreason : cause.reason.Lacks s := by
    apply hs.lacks_of_isShort
    cases h : cause.encoding <;> rw [Unencodable.reason, h] <;> decide
  have hescaped : cause.first.escaped.Lacks s := by
    apply hs.lacks_of_length
    rw [CodePoint.escaped]
    split_ifs <;> simp [lit]
  have hfirst : (Text.ofNat cause.start).Lacks s :=
    hs.lacks_of_length (Nat.lt_succ_of_le (Text.length_ofNat_le (by decide) hstart))
  have hlast : (Text.ofNat (cause.stop - 1)).Lacks s := by
    have hbelow : cause.stop - 1 < 10 ^ 63 := by omega
    exact hs.lacks_of_length (Nat.lt_succ_of_le (Text.length_ofNat_le (by decide) hbelow))
  have hrun : Text.Lacks
      (if cause.stop = cause.start + 1 then
        lit "character '" ++ cause.first.escaped ++ lit "' in position " ++ Text.ofNat cause.start
      else
        lit "characters in position " ++ Text.ofNat cause.start ++ lit "-" ++
          Text.ofNat (cause.stop - 1)) s := by
    split
    · simp only [List.append_assoc]
      exact hs.lacks_opening_append (by decide)
        (hs.lacks_append_fence_append (by decide) hescaped hfirst)
    · simp only [List.append_assoc]
      exact hs.lacks_opening_append (by decide)
        (hs.lacks_append_fence_append (by decide) hfirst hlast)
  simp only [Unencodable.message, List.append_assoc] at hrun ⊢
  exact hs.lacks_opening_append (by decide)
    (hs.lacks_append_fence_append (by decide) hcodec
      (hs.lacks_append_fence_append (by decide) hrun hreason))

end IsPayload

end Base58

namespace KeyPair

variable
  {members : Members}
  {expected payload : Text}
  {slot : Slot}

/-! ## Reasons -/

/-- A record that passes all checks before the reading of its keys: it names the expected account,
both keys carry the tag, and one slot is in use. -/
structure ReachesKeys
    (members : Members)
    (expected : Text)
    (slot : Slot)
    (publicPayload : Text) : Prop where
  account : (members.find? accountField).getD (.text []) = .text expected
  publicKey : members.find? publicField = some (.text (KeyText.tag ++ publicPayload))
  otherSlot : ∀ v, members.find? slot.other.field = some v → v.IsFalsy

/-- A record whose rejection shows the secret in the payload of its private key. Either the payload
has blanks around it and the public key is read without a fault, or the public key has a code point
outside ASCII at a position whose numeral shows the secret. -/
inductive Exposes
    (secret : Text)
    (members : Members)
    (expected : Text)
    (slot : Slot)
    (payload : Text) : Prop
  | blanks
      (publicKey : Bytes)
      (reaches : ReachesKeys members expected slot (Base58.encode publicKey))
      (untrimmed : Text.trim payload ≠ payload)
  | position
      (publicPayload : Text)
      (cause : Unencodable)
      (reaches : ReachesKeys members expected slot publicPayload)
      (trimmed : Text.trim publicPayload = publicPayload)
      (refused : Text.notAscii? 0 publicPayload = some cause)
      (shows : ¬ cause.message.Lacks secret)

/-- What a message about a record shows besides texts of its own: the account and the public key
that the record names, and the account it is expected to name. -/
structure Outside
    (secret : Text)
    (members : Members)
    (expected : Text) : Prop where
  expected : expected.Lacks secret
  account : ∀ v, members.find? accountField = some v → v.plain.Lacks secret
  publicKey : ∀ v, members.find? publicField = some v → v.plain.Lacks secret

theorem keyValue_isTruthy_of_text
    {name p : Text}
    (h : members.find? name = some (.text (KeyText.tag ++ p))) :
    (keyValue members name).isTruthy = true := by
  rw [(keyValue_eq_text_iff (tag_append_ne_nil p)).mpr h]
  simp [Json.isTruthy, KeyText.tag, lit]

/-- A slot that holds a tagged text is the one in use, if only one is. -/
theorem usedSlot_unique
    {used : Slot}
    (hslot : members.find? slot.field = some (.text (KeyText.tag ++ payload)))
    (hused : usedSlot members = .ok used) :
    used = slot := by
  obtain ⟨hother, -⟩ := usedSlot_eq_ok_iff.mp hused
  have htruthy := keyValue_isTruthy_of_text hslot
  cases used <;> cases slot <;> first
    | rfl
    | rw [Slot.other, htruthy] at hother
      cases hother

theorem checkAccount_message_lacks
    {secret : Text}
    (hs : Base58.IsPayload secret)
    (hout : Outside secret members expected)
    {r : Reason}
    (h : checkAccount members expected = .error r) :
    r.message.Lacks secret := by
  have hfound : ((members.find? accountField).getD (.text [])).plain.Lacks secret := by
    cases hv : members.find? accountField with
    | none =>
        exact hs.lacks_of_isShort (by decide)
    | some v =>
        exact hout.account v hv
  have hmessage :
      (Reason.otherAccount ((members.find? accountField).getD (.text [])) expected).message.Lacks
        secret := by
    simp only [Reason.message, List.append_assoc]
    exact hs.lacks_opening_append (by decide)
      (hs.lacks_append_fence_append (by decide) hfound
        (hs.lacks_append_closing (by decide) hout.expected))
  rw [checkAccount] at h
  split at h
  · next hv =>
    split at h
    · cases h
    · rw [hv] at hmessage
      obtain rfl := Except.error.inj h
      exact hmessage
  · obtain rfl := Except.error.inj h
    exact hmessage

theorem checkPublic_message_lacks
    {secret : Text}
    (hs : Base58.IsPayload secret)
    (hout : Outside secret members expected)
    {r : Reason}
    (h : checkPublic members = .error r) :
    r.message.Lacks secret := by
  have hfound : (keyValue members publicField).plain.Lacks secret := by
    rw [keyValue, Json.orEmpty]
    cases hv : members.find? publicField with
    | none =>
        exact hs.lacks_of_isShort (by decide)
    | some v =>
        rw [Option.getD_some]
        split
        · exact hout.publicKey v hv
        · exact hs.lacks_of_isShort (by decide)
  rw [checkPublic] at h
  split at h
  · cases h
  · obtain rfl := Except.error.inj h
    simp only [Reason.message, List.append_assoc]
    exact hs.lacks_opening_append (by decide)
      (hs.lacks_append_closing (by decide) hfound)

theorem usedSlot_message_lacks
    {secret : Text}
    (hs : Base58.IsPayload secret)
    {r : Reason}
    (h : usedSlot members = .error r) :
    r.message.Lacks secret := by
  rw [usedSlot] at h
  split at h
  · split at h
    · obtain rfl := Except.error.inj h
      have hsplit : Reason.bothSlots.message =
          lit "keystore: " ++ lit "private_key and secret_key are defined at the same time" := by
        decide
      rw [hsplit]
      exact hs.lacks_opening_append (by decide) (hs.lacks_of_isShort (by decide))
    · cases h
  · cases h

/-- A fault of the public key shows the secret only by the positions in it. -/
theorem publicFault_message_lacks_iff
    {secret publicPayload : Text}
    (hs : Base58.IsPayload secret)
    (hpublic : Text.Lacks (KeyText.tag ++ publicPayload) secret)
    {fault : KeyText.Fault}
    (h : KeyText.decode (KeyText.tag ++ publicPayload) = .error fault) :
    (Reason.badPayload fault).message.Lacks secret ↔
      ∀ cause, Text.trim publicPayload = publicPayload →
        Text.notAscii? 0 publicPayload = some cause → cause.message.Lacks secret := by
  rw [KeyText.decode_tag_append] at h
  split at h
  · next htrim =>
    obtain rfl := Except.error.inj h
    refine iff_of_true ?_ fun _ heq => absurd heq htrim
    simp only [Reason.message, KeyText.Fault.message]
    refine hs.lacks_opening_append (by decide) ?_
    rw [List.append_assoc]
    exact hs.lacks_opening_append (by decide) (hs.lacks_append_closing (by decide) hpublic)
  · next htrim =>
    rw [not_not] at htrim
    rw [KeyText.decodePayload_of_trim htrim] at h
    split at h
    · next cause hcause =>
      obtain rfl := Except.error.inj h
      constructor
      · intro hmessage other _ hother hshown
        obtain rfl := Option.some.inj (hcause.symm.trans hother)
        exact hmessage (List.infix_append_of_infix_right hshown)
      · intro hall
        exact hs.lacks_opening_append (by decide) (hall cause htrim hcause)
    · next hnone =>
      obtain ⟨c, -, rfl⟩ := mapError_eq_error_iff.mp h
      refine iff_of_true ?_ fun cause _ hcause => ?_
      · have hquoted : (Text.quoted [c]).Lacks secret :=
          hs.lacks_of_length (by have := Text.length_quoted_singleton_le c; omega)
        simp only [Reason.message, KeyText.Fault.message]
        exact hs.lacks_opening_append (by decide)
          (hs.lacks_opening_append (by decide) hquoted)
      · rw [hnone] at hcause
        cases hcause

/-! ## Rejections of a record -/

/-- Before the keys are read no message shows the secret. -/
theorem lacks_or_reachesKeys
    {secret : Text}
    (hs : Base58.IsPayload secret)
    (hslot : members.find? slot.field = some (.text (KeyText.tag ++ payload)))
    (hout : Outside secret members expected)
    {r : Reason}
    (h : check members expected = .error r) :
    r.message.Lacks secret ∨ ∃ publicPayload, ReachesKeys members expected slot publicPayload := by
  simp only [check, bind_eq_error_iff] at h
  rcases h with h | ⟨account, haccount, h⟩
  · exact Or.inl (checkAccount_message_lacks hs hout h)
  rcases h with h | ⟨publicKey, hpublic, h⟩
  · exact Or.inl (checkPublic_message_lacks hs hout h)
  rcases h with h | ⟨used, hused, h⟩
  · exact Or.inl (usedSlot_message_lacks hs h)
  obtain rfl := usedSlot_unique hslot hused
  obtain ⟨-, hname⟩ := checkAccount_eq_ok_iff.mp haccount
  obtain ⟨hfound, htag⟩ := checkPublic_eq_ok_iff.mp hpublic
  obtain ⟨publicPayload, rfl⟩ := KeyText.isTagged_iff.mp htag
  obtain ⟨hother, -⟩ := usedSlot_eq_ok_iff.mp hused
  exact Or.inr ⟨publicPayload, hname, hfound,
    (keyValue_isTruthy_eq_false_iff members used.other.field).mp hother⟩

/-- Once the keys are reached, they alone decide. -/
theorem ReachesKeys.check_eq
    {publicPayload : Text}
    (h : ReachesKeys members expected slot publicPayload)
    (hslot : members.find? slot.field = some (.text (KeyText.tag ++ payload))) :
    check members expected = (do
      let rawPublic ← (KeyText.decode (KeyText.tag ++ publicPayload)).mapError .badPayload
      let rawPrivate ← (KeyText.decode (KeyText.tag ++ payload)).mapError .badPayload
      let derived ← (RawKey.derivePublic rawPrivate).mapError (.badPrivate slot)
      if rawPublic.length ≠ 32 ∨ rawPublic ≠ derived ∨ rawPrivate.drop 32 ≠ derived then
        .error .mismatch
      else
        .ok (ofParts expected (KeyText.tag ++ publicPayload) slot (KeyText.tag ++ payload)
          rawPublic rawPrivate)) := by
  have haccount : checkAccount members expected = .ok expected :=
    checkAccount_eq_ok_iff.mpr ⟨rfl, h.account⟩
  have hpublic : checkPublic members = .ok (KeyText.tag ++ publicPayload) :=
    checkPublic_eq_ok_iff.mpr ⟨h.publicKey, KeyText.isTagged_tag_append publicPayload⟩
  have hused : usedSlot members = .ok slot :=
    usedSlot_eq_ok_iff.mpr
      ⟨(keyValue_isTruthy_eq_false_iff members slot.other.field).mpr h.otherSlot,
        fun _ => keyValue_isTruthy_of_text hslot⟩
  have hprivate : checkPrivate members slot = .ok (KeyText.tag ++ payload) :=
    checkPrivate_eq_ok_iff.mpr ⟨hslot, KeyText.isTagged_tag_append payload⟩
  rw [check, haccount, ok_bind, hpublic, ok_bind, hused, ok_bind, hprivate, ok_bind]

/-- Blanks around the payload are what a record is rejected for once its public key is read. -/
theorem ReachesKeys.check_of_blanks
    {publicKey : Bytes}
    (h : ReachesKeys members expected slot (Base58.encode publicKey))
    (hslot : members.find? slot.field = some (.text (KeyText.tag ++ payload)))
    (hblank : Text.trim payload ≠ payload) :
    check members expected =
      .error (.badPayload (.surroundingBlanks (KeyText.tag ++ payload))) := by
  rw [h.check_eq hslot, ← KeyText.encode, KeyText.decode_encode, KeyText.decode_tag_append,
    if_pos hblank]
  rfl

theorem ReachesKeys.payload_unique
    {publicPayload other : Text}
    (h : ReachesKeys members expected slot publicPayload)
    (hother : ReachesKeys members expected slot other) :
    other = publicPayload := by
  have htexts := hother.publicKey.symm.trans h.publicKey
  exact List.append_cancel_left (Json.text.inj (Option.some.inj htexts))

/-- With a public key that is read, only blanks around the payload expose it. -/
theorem ReachesKeys.exposes_iff_of_encode
    {secret : Text}
    {publicKey : Bytes}
    (h : ReachesKeys members expected slot (Base58.encode publicKey)) :
    Exposes secret members expected slot payload ↔ Text.trim payload ≠ payload := by
  constructor
  · intro hexposes
    cases hexposes with
    | blanks _ _ untrimmed =>
        exact untrimmed
    | position other cause reaches _ refused _ =>
        obtain rfl := h.payload_unique reaches
        rw [Base58.notAscii?_encode] at refused
        cases refused
  · intro huntrimmed
    exact .blanks publicKey h huntrimmed

/-- With a public key that is not read, only a position in it exposes the payload. -/
theorem ReachesKeys.exposes_iff_of_fault
    {secret publicPayload : Text}
    (h : ReachesKeys members expected slot publicPayload)
    {fault : KeyText.Fault}
    (hfault : KeyText.decode (KeyText.tag ++ publicPayload) = .error fault) :
    Exposes secret members expected slot payload ↔
      ∃ cause, Text.trim publicPayload = publicPayload ∧
        Text.notAscii? 0 publicPayload = some cause ∧ ¬ cause.message.Lacks secret := by
  constructor
  · intro hexposes
    cases hexposes with
    | blanks publicKey reaches _ =>
        obtain rfl := h.payload_unique reaches
        rw [← KeyText.encode, KeyText.decode_encode] at hfault
        cases hfault
    | position other cause reaches trimmed refused shows =>
        obtain rfl := h.payload_unique reaches
        exact ⟨cause, trimmed, refused, shows⟩
  · rintro ⟨cause, trimmed, refused, shows⟩
    exact .position publicPayload cause h trimmed refused shows

variable
  {key : Bytes}

/-- A private key is refused only for blanks around its payload, and then shown. -/
theorem shown_of_privateFault
    (hpayload : Text.trim payload = Base58.encode key)
    {fault : KeyText.Fault}
    (hfault : KeyText.decode (KeyText.tag ++ payload) = .error fault) :
    Text.trim payload ≠ payload ∧
      ¬ (Reason.badPayload fault).message.Lacks (Base58.encode key) := by
  rw [KeyText.decode_tag_append] at hfault
  split at hfault
  · next htrim =>
    obtain rfl := Except.error.inj hfault
    refine ⟨htrim, ?_⟩
    rw [Text.Lacks, not_not, ← hpayload]
    have htext : Text.trim payload <:+: KeyText.tag ++ payload :=
      List.infix_append_of_infix_right (Text.isInfix_trim payload)
    exact List.infix_append_of_infix_right
      (List.infix_append_of_infix_left (List.infix_append_of_infix_right htext))
  · next htrim =>
    rw [not_not] at htrim
    rw [← htrim, hpayload, KeyText.decodePayload_encode] at hfault
    cases hfault

/-- Once the keys are reached, the message shows the payload exactly when the record exposes it. -/
theorem ReachesKeys.message_lacks_iff
    {publicPayload : Text}
    (h : ReachesKeys members expected slot publicPayload)
    (hslot : members.find? slot.field = some (.text (KeyText.tag ++ payload)))
    (hkey : key.length = 64)
    (hpayload : Text.trim payload = Base58.encode key)
    (hout : Outside (Base58.encode key) members expected)
    {r : Reason}
    (hr : check members expected = .error r) :
    r.message.Lacks (Base58.encode key) ↔
      ¬ Exposes (Base58.encode key) members expected slot payload := by
  have hs : Base58.IsPayload (Base58.encode key) := Base58.isPayload_encode hkey.ge
  simp only [h.check_eq hslot, bind_eq_error_iff, mapError_eq_error_iff, mapError_eq_ok_iff] at hr
  rcases hr with ⟨fault, hfault, rfl⟩ | ⟨rawPublic, hrawPublic, hr⟩
  · -- The public key is at fault.
    rw [publicFault_message_lacks_iff hs (hout.publicKey _ h.publicKey) hfault,
      h.exposes_iff_of_fault hfault]
    simp only [not_exists, not_and, not_not]
  obtain rfl : publicPayload = Base58.encode rawPublic :=
    List.append_cancel_left (KeyText.decode_eq_ok_iff.mp hrawPublic)
  rw [h.exposes_iff_of_encode]
  rcases hr with ⟨fault, hfault, rfl⟩ | ⟨rawPrivate, hrawPrivate, hr⟩
  · -- The private key is at fault.
    obtain ⟨htrim, hshown⟩ := shown_of_privateFault hpayload hfault
    exact iff_of_false hshown (not_not.mpr htrim)
  · -- Both keys are read, and what is left does not look at texts.
    obtain rfl : payload = Base58.encode rawPrivate :=
      List.append_cancel_left (KeyText.decode_eq_ok_iff.mp hrawPrivate)
    have htrim := KeyText.trim_encode rawPrivate
    obtain rfl := Base58.encode_injective (htrim.symm.trans hpayload)
    refine iff_of_true ?_ (not_not.mpr htrim)
    obtain ⟨derived, hderived⟩ := RawKey.exists_derivePublic hkey
    rcases hr with ⟨fault, hfault, -⟩ | ⟨_, -, hr⟩
    · rw [hderived] at hfault
      cases hfault
    · split at hr
      · obtain rfl := Except.error.inj hr
        exact hs.lacks_of_isShort (by decide)
      · cases hr

/-- The reason for which a record fails its checks shows the payload of the private key exactly when
the record exposes it. -/
theorem check_message_lacks_iff
    (hslot : members.find? slot.field = some (.text (KeyText.tag ++ payload)))
    (hkey : key.length = 64)
    (hpayload : Text.trim payload = Base58.encode key)
    (hout : Outside (Base58.encode key) members expected)
    {r : Reason}
    (hr : check members expected = .error r) :
    r.message.Lacks (Base58.encode key) ↔
      ¬ Exposes (Base58.encode key) members expected slot payload := by
  have hs : Base58.IsPayload (Base58.encode key) := Base58.isPayload_encode hkey.ge
  by_cases hreach : ∃ publicPayload, ReachesKeys members expected slot publicPayload
  · obtain ⟨publicPayload, hreach⟩ := hreach
    exact hreach.message_lacks_iff hslot hkey hpayload hout hr
  · have hlacks : r.message.Lacks (Base58.encode key) :=
      (lacks_or_reachesKeys hs hslot hout hr).resolve_right hreach
    refine iff_of_true hlacks ?_
    intro hexposes
    cases hexposes with
    | blanks publicKey reaches _ =>
        exact hreach ⟨_, reaches⟩
    | position publicPayload _ reaches _ _ _ =>
        exact hreach ⟨_, reaches⟩

/-- The numeral of a position shows a payload only in a public key that is too long to be stored. -/
theorem length_of_shown_position
    {secret publicPayload : Text}
    (hs : Base58.IsPayload secret)
    {cause : Unencodable}
    (hcause : Text.notAscii? 0 publicPayload = some cause)
    (hshown : ¬ cause.message.Lacks secret) :
    10 ^ 63 ≤ publicPayload.length := by
  by_contra hshort
  obtain ⟨hlt, hle⟩ := Text.notAscii?_bounds hcause
  exact hshown (hs.lacks_unencodable (by omega) (by omega))

end KeyPair

end Keybox
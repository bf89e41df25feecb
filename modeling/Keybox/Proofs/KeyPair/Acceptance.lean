import Keybox.KeyPair.Check
import Keybox.Proofs.Except
import Keybox.Proofs.KeyText

/-!
# Which records are accepted

A record is accepted exactly when it stores the key pair of a seed: the account is the expected
one, the public key's text is the one of the seed's public key, one slot holds the text of the
seed's private key, and the other slot holds nothing that counts.

Each check is first described on its own, by what it says about the record's members. The checks of
the key bytes then come down to one fact: bytes that pass them are the keys of a seed.
-/

namespace Keybox

namespace Json

/-- The values that count as absent: null, false, the zeros, and whatever is empty. -/
inductive IsFalsy : Json → Prop
  | null : IsFalsy .null
  | no : IsFalsy (.bool false)
  | zero : IsFalsy (.int 0)
  | realZero
      (negative : Bool)
      (exponent : Int) :
      IsFalsy (.real (.finite negative 0 exponent))
  | emptyText : IsFalsy (.text [])
  | emptyArray : IsFalsy (.array [])
  | emptyObject : IsFalsy (.object [])

theorem isTruthy_eq_false_iff
    (v : Json) :
    v.isTruthy = false ↔ v.IsFalsy := by
  constructor
  · intro h
    cases v with
    | null =>
        exact .null
    | bool b =>
        obtain rfl : b = false := h
        exact .no
    | int n =>
        obtain rfl : n = 0 := by simpa [isTruthy] using h
        exact .zero
    | real x =>
        cases x with
        | nan =>
            simp [isTruthy, Binary64.isZero] at h
        | infinite negative =>
            simp [isTruthy, Binary64.isZero] at h
        | finite negative mantissa exponent =>
            obtain rfl : mantissa = 0 := by simpa [isTruthy, Binary64.isZero] using h
            exact .realZero negative exponent
    | text t =>
        obtain rfl : t = [] := by simpa [isTruthy] using h
        exact .emptyText
    | array items =>
        obtain rfl : items = [] := by simpa [isTruthy] using h
        exact .emptyArray
    | object members =>
        obtain rfl : members = [] := by simpa [isTruthy] using h
        exact .emptyObject
  · intro h
    cases h <;> rfl

theorem tagged?_eq_some_iff
    {v : Json}
    {t : Text} :
    v.tagged? = some t ↔ v = .text t ∧ KeyText.isTagged t = true := by
  cases v with
  | text u =>
      by_cases hu : KeyText.isTagged u = true
      · simp only [tagged?, hu, if_true, Option.some.injEq, text.injEq]
        constructor
        · rintro rfl
          exact ⟨rfl, hu⟩
        · rintro ⟨rfl, -⟩
          rfl
      · simp only [tagged?, hu, if_false, text.injEq, reduceCtorEq, false_iff, not_and]
        rintro rfl
        exact hu
  | _ => simp [tagged?]

end Json

/-- The slot that is not the given one. -/
def Slot.other : Slot → Slot
  | privateKey => secretKey
  | secretKey => privateKey

namespace KeyPair

/-! ## What each check says -/

/-- A member's value counts as present when the member is there with a truthy value. -/
theorem keyValue_isTruthy_eq_false_iff
    (members : Members)
    (name : Text) :
    (keyValue members name).isTruthy = false ↔
      ∀ v, members.find? name = some v → v.IsFalsy := by
  rw [keyValue, Json.orEmpty]
  cases hv : members.find? name with
  | none =>
      simp [Json.isTruthy]
  | some v =>
      rw [Option.getD_some]
      by_cases ht : v.isTruthy = true
      · have hnot : ¬ v.IsFalsy := by
          rw [← Json.isTruthy_eq_false_iff, ht]
          simp
        rw [if_pos ht]
        exact iff_of_false (by simp [ht]) (by simpa using hnot)
      · have hfalsy : v.IsFalsy :=
          (Json.isTruthy_eq_false_iff v).mp (by simpa using ht)
        rw [if_neg ht]
        exact iff_of_true rfl (by simpa using hfalsy)

theorem keyValue_eq_text_iff
    {members : Members}
    {name t : Text}
    (ht : t ≠ []) :
    keyValue members name = .text t ↔ members.find? name = some (.text t) := by
  rw [keyValue, Json.orEmpty]
  cases hv : members.find? name with
  | none =>
      simp [Json.isTruthy, ht.symm]
  | some v =>
      rw [Option.getD_some]
      by_cases hv : v.isTruthy = true
      · simp [hv]
      · rw [if_neg hv]
        constructor
        · intro h
          exact absurd (Json.text.inj h).symm ht
        · intro h
          rw [Option.some.inj h] at hv
          exact absurd (by simpa [Json.isTruthy] using ht) hv

theorem tag_append_ne_nil
    (p : Text) :
    KeyText.tag ++ p ≠ [] := by
  simp [KeyText.tag, lit]

theorem keyValue_tagged?_eq_some_iff
    {members : Members}
    {name t : Text} :
    (keyValue members name).tagged? = some t ↔
      members.find? name = some (.text t) ∧ KeyText.isTagged t = true := by
  rw [Json.tagged?_eq_some_iff]
  constructor
  · rintro ⟨hv, htag⟩
    obtain ⟨p, rfl⟩ := KeyText.isTagged_iff.mp htag
    exact ⟨(keyValue_eq_text_iff (tag_append_ne_nil p)).mp hv, htag⟩
  · rintro ⟨hv, htag⟩
    obtain ⟨p, rfl⟩ := KeyText.isTagged_iff.mp htag
    exact ⟨(keyValue_eq_text_iff (tag_append_ne_nil p)).mpr hv, htag⟩

theorem checkAccount_eq_ok_iff
    {members : Members}
    {expected t : Text} :
    checkAccount members expected = .ok t ↔
      t = expected ∧ (members.find? accountField).getD (.text []) = .text expected := by
  rw [checkAccount]
  cases hv : (members.find? accountField).getD (.text []) with
  | text u =>
      by_cases hu : u = expected
      · simp [hu, eq_comm]
      · simp [hu]
  | _ => simp

theorem checkPublic_eq_ok_iff
    {members : Members}
    {t : Text} :
    checkPublic members = .ok t ↔
      members.find? publicField = some (.text t) ∧ KeyText.isTagged t = true := by
  rw [← keyValue_tagged?_eq_some_iff, checkPublic]
  cases (keyValue members publicField).tagged? with
  | none =>
      simp
  | some u =>
      simp

theorem checkPrivate_eq_ok_iff
    {members : Members}
    {slot : Slot}
    {t : Text} :
    checkPrivate members slot = .ok t ↔
      members.find? slot.field = some (.text t) ∧ KeyText.isTagged t = true := by
  rw [← keyValue_tagged?_eq_some_iff, checkPrivate]
  cases (keyValue members slot.field).tagged? with
  | none =>
      simp
  | some u =>
      simp

/-- The slot in use is one whose other slot holds nothing that counts; it is the second slot unless
the first holds something. -/
theorem usedSlot_eq_ok_iff
    {members : Members}
    {slot : Slot} :
    usedSlot members = .ok slot ↔
      (keyValue members slot.other.field).isTruthy = false ∧
        (slot = .privateKey → (keyValue members slot.field).isTruthy = true) := by
  rw [usedSlot]
  cases hfirst : (keyValue members Slot.privateKey.field).isTruthy <;>
    cases hsecond : (keyValue members Slot.secretKey.field).isTruthy <;>
    cases slot <;>
    simp [Slot.other, hfirst, hsecond]

end KeyPair

/-! ## Keys of a seed -/

@[simp] theorem Seed.length_publicKey
    (s : Seed) :
    s.publicKey.length = 32 := by
  rw [publicKey, Ed25519.publicKey, Ed25519.encode, Numeral.length_littleEndian]

@[simp] theorem Seed.drop_privateKey
    (s : Seed) :
    s.privateKey.drop 32 = s.publicKey := by
  rw [privateKey, List.drop_left' s.length_bytes]

theorem RawKey.derivePublic_append
    (s : Seed)
    (half : Bytes)
    (hhalf : half.length = 32) :
    derivePublic (s.bytes ++ half) = .ok s.publicKey := by
  have hlen : (s.bytes ++ half).length = 64 := by
    rw [List.length_append, s.length_bytes, hhalf]
  have hseed : Seed.ofBytes? s.bytes = some s := by
    rw [Seed.ofBytes?, dif_pos s.length_bytes]
  rw [derivePublic, if_neg (by simp [hlen]), seedOf, if_pos hlen,
    List.take_left' s.length_bytes, hseed]
  rfl

/-- Any 64 bytes begin with a seed. -/
theorem RawKey.exists_seed_append
    {key : Bytes}
    (hkey : key.length = 64) :
    ∃ s : Seed, ∃ half : Bytes, key = s.bytes ++ half ∧ half.length = 32 := by
  have htake : (key.take 32).length = 32 := by simp [hkey]
  exact ⟨⟨key.take 32, htake⟩, key.drop 32, (List.take_append_drop 32 key).symm, by simp [hkey]⟩

theorem RawKey.exists_derivePublic
    {key : Bytes}
    (hkey : key.length = 64) :
    ∃ derived, derivePublic key = .ok derived := by
  obtain ⟨s, half, rfl, hhalf⟩ := exists_seed_append hkey
  exact ⟨_, derivePublic_append s half hhalf⟩

/-- A public key is derived from 64 bytes that begin with its seed. -/
theorem RawKey.derivePublic_eq_ok_iff
    {key derived : Bytes} :
    derivePublic key = .ok derived ↔
      ∃ s : Seed, ∃ half : Bytes,
        key = s.bytes ++ half ∧ half.length = 32 ∧ derived = s.publicKey := by
  constructor
  · intro h
    by_cases hlen : key.length = 64
    · obtain ⟨s, half, rfl, hhalf⟩ := exists_seed_append hlen
      rw [derivePublic_append s half hhalf] at h
      exact ⟨s, half, rfl, hhalf, (Except.ok.inj h).symm⟩
    · rw [derivePublic, if_pos hlen] at h
      cases h
  · rintro ⟨s, half, rfl, hhalf, rfl⟩
    exact derivePublic_append s half hhalf

/-- The bytes that pass the checks of a private key against a public key are those of a seed. -/
theorem RawKey.derivePublic_matches_iff
    {pub key derived : Bytes} :
    (derivePublic key = .ok derived ∧
        ¬ (pub.length ≠ 32 ∨ pub ≠ derived ∨ key.drop 32 ≠ derived)) ↔
      ∃ s : Seed, pub = s.publicKey ∧ key = s.privateKey ∧ derived = s.publicKey := by
  constructor
  · rintro ⟨h, hmatch⟩
    push Not at hmatch
    obtain ⟨-, hpub, hhalf⟩ := hmatch
    obtain ⟨s, half, rfl, hlen, rfl⟩ := derivePublic_eq_ok_iff.mp h
    rw [List.drop_left' s.length_bytes] at hhalf
    exact ⟨s, hpub, by rw [hhalf, Seed.privateKey], rfl⟩
  · rintro ⟨s, rfl, rfl, rfl⟩
    exact ⟨derivePublic_append s s.publicKey s.length_publicKey, by simp⟩

namespace KeyPair

/-! ## The records of key pairs -/

/-- A record that stores the key pair of a seed for an account, with the private key in the given
slot. -/
structure Stores
    (members : Members)
    (account : Text)
    (seed : Seed)
    (slot : Slot) : Prop where
  account : (members.find? accountField).getD (.text []) = .text account
  publicKey : members.find? publicField = some (.text (KeyText.encode seed.publicKey))
  privateKey : members.find? slot.field = some (.text (KeyText.encode seed.privateKey))
  otherSlot : ∀ v, members.find? slot.other.field = some v → v.IsFalsy

/-- The pair of a seed with the private key's text in the given slot. -/
def ofSeedIn
    (slot : Slot)
    (seed : Seed)
    (account : Text) : KeyPair where
  account := account
  publicKey := KeyText.encode seed.publicKey
  privateKey := if slot = .privateKey then KeyText.encode seed.privateKey else []
  secretKey := if slot = .secretKey then KeyText.encode seed.privateKey else []
  rawPublic := seed.publicKey
  rawPrivate := seed.privateKey

theorem isTagged_encode
    (key : Bytes) :
    KeyText.isTagged (KeyText.encode key) = true :=
  KeyText.isTagged_tag_append (Base58.encode key)

theorem keyValue_encode_isTruthy
    {members : Members}
    {name : Text}
    {key : Bytes}
    (h : members.find? name = some (.text (KeyText.encode key))) :
    (keyValue members name).isTruthy = true := by
  rw [(keyValue_eq_text_iff (tag_append_ne_nil (Base58.encode key))).mpr h]
  simp [Json.isTruthy, KeyText.tag, lit]

/-- A record passes all checks exactly when it stores the key pair of a seed. -/
theorem check_eq_ok_iff
    {members : Members}
    {expected : Text}
    {p : KeyPair} :
    check members expected = .ok p ↔
      ∃ seed slot, Stores members expected seed slot ∧ p = ofSeedIn slot seed expected := by
  constructor
  · intro h
    simp only [check, bind_eq_ok_iff, mapError_eq_ok_iff] at h
    obtain ⟨account, haccount, publicKey, hpublic, slot, hslot, privateText, hprivate,
      rawPublic, hrawPublic, rawPrivate, hrawPrivate, derived, hderived, h⟩ := h
    obtain ⟨rfl, hname⟩ := checkAccount_eq_ok_iff.mp haccount
    obtain ⟨hpublicFound, -⟩ := checkPublic_eq_ok_iff.mp hpublic
    obtain ⟨hother, -⟩ := usedSlot_eq_ok_iff.mp hslot
    obtain ⟨hprivateFound, -⟩ := checkPrivate_eq_ok_iff.mp hprivate
    obtain rfl := KeyText.decode_eq_ok_iff.mp hrawPublic
    obtain rfl := KeyText.decode_eq_ok_iff.mp hrawPrivate
    split at h
    · cases h
    · next hmatch =>
      obtain ⟨seed, rfl, rfl, rfl⟩ :=
        RawKey.derivePublic_matches_iff.mp ⟨hderived, hmatch⟩
      cases h
      exact ⟨seed, slot,
        ⟨hname, hpublicFound, hprivateFound,
          (keyValue_isTruthy_eq_false_iff members slot.other.field).mp hother⟩, rfl⟩
  · rintro ⟨seed, slot, hstores, rfl⟩
    have haccount : checkAccount members expected = .ok expected :=
      checkAccount_eq_ok_iff.mpr ⟨rfl, hstores.account⟩
    have hpublic : checkPublic members = .ok (KeyText.encode seed.publicKey) :=
      checkPublic_eq_ok_iff.mpr ⟨hstores.publicKey, isTagged_encode seed.publicKey⟩
    have hslot : usedSlot members = .ok slot :=
      usedSlot_eq_ok_iff.mpr
        ⟨(keyValue_isTruthy_eq_false_iff members slot.other.field).mpr hstores.otherSlot,
          fun _ => keyValue_encode_isTruthy hstores.privateKey⟩
    have hprivate : checkPrivate members slot = .ok (KeyText.encode seed.privateKey) :=
      checkPrivate_eq_ok_iff.mpr ⟨hstores.privateKey, isTagged_encode seed.privateKey⟩
    obtain ⟨hderived, hmatch⟩ :=
      RawKey.derivePublic_matches_iff.mpr
        ⟨seed, (rfl : seed.publicKey = _), (rfl : seed.privateKey = _), rfl⟩
    simp only [check, bind_eq_ok_iff, mapError_eq_ok_iff]
    refine ⟨_, haccount, _, hpublic, slot, hslot, _, hprivate, _, KeyText.decode_encode _,
      _, KeyText.decode_encode _, _, hderived, ?_⟩
    rw [if_neg hmatch]
    rfl

/-- The names of the members that the checks look at. -/
def consulted : List Text :=
  [accountField, publicField, Slot.privateKey.field, Slot.secretKey.field]

/-- The checks depend on nothing but the members they look at. -/
theorem check_congr
    {members others : Members}
    (h : ∀ name ∈ consulted, others.find? name = members.find? name)
    (expected : Text) :
    check others expected = check members expected := by
  have hkey : ∀ name ∈ consulted, keyValue others name = keyValue members name := by
    intro name hname
    rw [keyValue, keyValue, h name hname]
  have haccount : checkAccount others expected = checkAccount members expected := by
    rw [checkAccount, checkAccount, h accountField (by simp [consulted])]
  have hpublic : checkPublic others = checkPublic members := by
    rw [checkPublic, checkPublic, hkey publicField (by simp [consulted])]
  have hslot : usedSlot others = usedSlot members := by
    rw [usedSlot, usedSlot, hkey Slot.privateKey.field (by simp [consulted]),
      hkey Slot.secretKey.field (by simp [consulted])]
  have hprivate : checkPrivate others = checkPrivate members := by
    funext slot
    rw [checkPrivate, checkPrivate, hkey slot.field (by cases slot <;> simp [consulted])]
  rw [check, check, haccount, hpublic, hslot, hprivate]

/-- **Exact acceptance.** A record is accepted for an account exactly when it stores the key pair of
a seed under that account, in either slot, and the result is that pair with the private key in the
same slot. Members with other names have no part in the outcome. -/
theorem decode_ok_iff_stores
    (members : Members)
    (expected : Text)
    (place : Option Text)
    (p : KeyPair) :
    (decode members expected place = .ok p ↔
        ∃ seed slot, Stores members expected seed slot ∧ p = ofSeedIn slot seed expected) ∧
      ∀ others : Members,
        (∀ name ∈ consulted, others.find? name = members.find? name) →
          decode others expected place = decode members expected place := by
  refine ⟨?_, ?_⟩
  · rw [decode, mapError_eq_ok_iff, check_eq_ok_iff]
  · intro others h
    rw [decode, decode, check_congr h]

end KeyPair

end Keybox

import Keybox.FileTree.Fault
import Keybox.Proofs.Text.Utf8
import Keybox.Text.FileName

/-!
# Names and their bytes

The text of a name's bytes stands for the same bytes again, so settling a name does not change the
file it names. A text without surrogates is settled, and so the names of different texts without
surrogates are different. The same goes for ASCII texts among all texts, which keeps the two special
components of a path apart from names.
-/

namespace Keybox

namespace FileName

open Utf8 (encodePoint point? byte)

theorem bytes_cons
    (c : CodePoint)
    (t : Text) :
    bytes (c :: t) = pointBytes c ++ bytes t := by
  rw [bytes, List.flatMap_cons, bytes]

theorem bytes_append
    (s t : Text) :
    bytes (s ++ t) = bytes s ++ bytes t := by
  rw [bytes, List.flatMap_append, bytes, bytes]

theorem length_append
    (s t : Text) :
    length (s ++ t) = length s + length t := by
  rw [length, bytes_append, List.length_append, length, length]

theorem length_le_of_prefix
    {s t : Text}
    (h : s <+: t) :
    length s ≤ length t := by
  obtain ⟨u, rfl⟩ := h
  rw [length_append]
  exact Nat.le_add_right _ _

theorem isByteSurrogate_eq_false
    {c : CodePoint}
    (hc : c.isSurrogate = false) :
    Text.isByteSurrogate c = false := by
  rw [Utf8.isSurrogate_eq_false_iff] at hc
  rw [Text.isByteSurrogate, decide_eq_false_iff_not]
  omega

theorem pointBytes_of_scalar
    {c : CodePoint}
    (hc : c.isSurrogate = false) :
    pointBytes c = encodePoint c := by
  rw [pointBytes, isByteSurrogate_eq_false hc]
  rfl

/-- A text of ASCII takes as many bytes as it has code points. -/
theorem length_of_isAscii
    {t : Text}
    (h : ∀ c ∈ t, c.isAscii = true) :
    length t = t.length := by
  induction t with
  | nil =>
      rfl
  | cons c rest ih =>
      have hc := h c List.mem_cons_self
      have hbytes : (pointBytes c).length = 1 := by
        rw [pointBytes_of_scalar (Utf8.isSurrogate_of_isAscii hc), Utf8.encodePoint,
          if_pos (of_decide_eq_true hc)]
        rfl
      rw [length, bytes_cons, List.length_append, hbytes, List.length_cons, Nat.add_comm,
        ← length, ih fun d hd => h d (List.mem_cons_of_mem c hd)]

/-- A code point is one ASCII byte or begins with a byte that is none. -/
theorem pointBytes_cases
    (c : CodePoint) :
    (c.val < 0x80 ∧ pointBytes c = [byte c.val]) ∨
      ∃ b bs, pointBytes c = b :: bs ∧ 0x80 ≤ b.toNat := by
  have hmax : c.val < 0x110000 := c.isLt
  rw [pointBytes]
  split
  · next hbyte =>
    rw [Text.isByteSurrogate, decide_eq_true_eq] at hbyte
    exact Or.inr ⟨_, _, rfl, by rw [Utf8.toNat_byte (by omega)]; omega⟩
  · rw [encodePoint]
    split
    · next h => exact Or.inl ⟨h, rfl⟩
    · split
      · exact Or.inr ⟨_, _, rfl, by rw [Utf8.toNat_byte (by omega)]; omega⟩
      · split
        · exact Or.inr ⟨_, _, rfl, by rw [Utf8.toNat_byte (by omega)]; omega⟩
        · exact Or.inr ⟨_, _, rfl, by rw [Utf8.toNat_byte (by omega)]; omega⟩

/-! ## From bytes and back -/

theorem ofBytesAfter_eq
    (covered : Nat)
    (name : Bytes) :
    ofBytesAfter covered name = ofBytes (name.drop covered) := by
  induction covered generalizing name with
  | zero =>
      rw [List.drop_zero, ofBytes]
  | succ covered ih =>
      cases name with
      | nil =>
          rw [List.drop_nil, ofBytes, ofBytesAfter, ofBytesAfter]
      | cons b rest =>
          rw [ofBytesAfter, ih, List.drop_succ_cons]

theorem ofBytes_nil :
    ofBytes [] = [] := by
  rw [ofBytes, ofBytesAfter]

theorem ofBytes_of_point?
    {b : UInt8}
    {rest : Bytes}
    {c : CodePoint}
    {k : Nat}
    (h : point? b rest = some (c, k)) :
    ofBytes (b :: rest) = c :: ofBytes (rest.drop k) := by
  rw [ofBytes, ofBytesAfter, h]
  dsimp only
  rw [ofBytesAfter_eq]

theorem ofBytes_of_none
    {b : UInt8}
    {rest : Bytes}
    (h : point? b rest = none) :
    ofBytes (b :: rest) = byteSurrogate b :: ofBytes rest := by
  rw [ofBytes, ofBytesAfter, h]
  dsimp only
  rw [ofBytesAfter_eq, List.drop_zero]

theorem le_of_point?_eq_none
    {b : UInt8}
    {rest : Bytes}
    (h : point? b rest = none) :
    0x80 ≤ b.toNat := by
  rcases Nat.lt_or_ge b.toNat 0x80 with hb | hb
  · have hlead : Utf8.lead b = .one := by
      rw [Utf8.lead, if_pos hb]
    simp [point?, hlead] at h
  · exact hb

theorem pointBytes_byteSurrogate
    {b : UInt8}
    (hb : 0x80 ≤ b.toNat) :
    pointBytes (byteSurrogate b) = [b] := by
  have hmax : b.toNat < 256 := b.toNat_lt
  have hval : (byteSurrogate b).val = 0xDC00 + b.toNat := by
    rw [byteSurrogate, Fin.val_ofNat, Nat.mod_eq_of_lt (by omega)]
  have hsurrogate : Text.isByteSurrogate (byteSurrogate b) = true := by
    rw [Text.isByteSurrogate, decide_eq_true_eq, hval]
    omega
  rw [pointBytes, if_pos hsurrogate, hval, Nat.add_sub_cancel_left, Utf8.byte_eq rfl]

/-- Bytes are what their text stands for. -/
theorem bytes_ofBytes
    (name : Bytes) :
    bytes (ofBytes name) = name := by
  induction hlength : name.length using Nat.strongRecOn generalizing name with
  | ind n ih =>
      cases name with
      | nil =>
          rw [ofBytes_nil]
          rfl
      | cons b rest =>
          rw [List.length_cons] at hlength
          cases hpoint : point? b rest with
          | none =>
              rw [ofBytes_of_none hpoint, bytes_cons,
                pointBytes_byteSurrogate (le_of_point?_eq_none hpoint),
                ih rest.length (by omega) rest rfl]
              rfl
          | some r =>
              obtain ⟨c, k⟩ := r
              obtain ⟨hscalar, hk, hbytes⟩ := (Utf8.point?_eq_some_iff.mp hpoint).encodePoint_eq
              have hdrop : (rest.drop k).length = rest.length - k := List.length_drop
              rw [ofBytes_of_point? hpoint, bytes_cons, pointBytes_of_scalar hscalar, hbytes,
                ih (rest.drop k).length (by omega) (rest.drop k) rfl, List.cons_append,
                List.take_append_drop]

theorem bytes_settled
    (t : Text) :
    bytes (settled t) = bytes t :=
  bytes_ofBytes (bytes t)

/-- A text without surrogates is the text of its bytes. -/
theorem settled_of_scalar
    {t : Text}
    (h : ∀ c ∈ t, c.isSurrogate = false) :
    settled t = t := by
  rw [settled]
  induction t with
  | nil =>
      exact ofBytes_nil
  | cons c t ih =>
      have hc := h c (by simp)
      obtain ⟨b, bs, hbytes, hsequence⟩ := Utf8.exists_sequence_encodePoint hc (bytes t)
      have hpoint := Utf8.point?_eq_some_iff.mpr hsequence
      rw [bytes_cons, pointBytes_of_scalar hc, hbytes, List.cons_append, ofBytes_of_point? hpoint,
        List.drop_left, ih fun d hd => h d (List.mem_cons_of_mem c hd)]

/-! ## ASCII names -/

/-- An ASCII text is the only one that stands for its bytes. -/
theorem eq_of_bytes_eq
    {t ascii : Text}
    (hascii : ∀ c ∈ ascii, c.val < 0x80)
    (h : bytes t = bytes ascii) :
    t = ascii := by
  induction ascii generalizing t with
  | nil =>
      cases t with
      | nil =>
          rfl
      | cons c t =>
          rw [bytes_cons] at h
          rcases pointBytes_cases c with ⟨-, hc⟩ | ⟨b, bs, hc, -⟩
          · rw [hc] at h
            cases h
          · rw [hc] at h
            cases h
  | cons a ascii ih =>
      have ha := hascii a (by simp)
      have hpoint : pointBytes a = [byte a.val] := by
        rcases pointBytes_cases a with ⟨-, hpoint⟩ | ⟨b, bs, hpoint, hb⟩
        · exact hpoint
        · have hscalar : a.isSurrogate = false := by
            rw [Utf8.isSurrogate_eq_false_iff]
            omega
          rw [pointBytes_of_scalar hscalar, encodePoint, if_pos ha]
      rw [bytes_cons, hpoint] at h
      cases t with
      | nil =>
          cases h
      | cons c t =>
          rw [bytes_cons] at h
          rcases pointBytes_cases c with ⟨hval, hc⟩ | ⟨b, bs, hc, hb⟩
          · rw [hc, List.singleton_append, List.singleton_append, List.cons.injEq] at h
            have hbyte := congrArg UInt8.toNat h.1
            rw [Utf8.toNat_byte (by omega), Utf8.toNat_byte (by omega)] at hbyte
            rw [Fin.ext hbyte, ih (fun d hd => hascii d (List.mem_cons_of_mem a hd)) h.2]
          · rw [hc, List.cons_append, List.singleton_append, List.cons.injEq] at h
            rw [h.1, Utf8.toNat_byte (by omega)] at hb
            omega

theorem settled_eq_iff
    {t ascii : Text}
    (hascii : ∀ c ∈ ascii, c.val < 0x80) :
    settled t = ascii ↔ t = ascii := by
  constructor
  · intro h
    apply eq_of_bytes_eq hascii
    rw [← h, bytes_settled]
  · rintro rfl
    apply settled_of_scalar
    intro c hc
    rw [Utf8.isSurrogate_eq_false_iff]
    have := hascii c hc
    omega

end FileName

namespace Text

theorem notFileName?_eq_none_iff
    (position : Nat)
    (t : Text) :
    notFileName? position t = none ↔
      ∀ c ∈ t, c.isSurrogate = true → isByteSurrogate c = true := by
  induction t generalizing position with
  | nil =>
      simp [notFileName?]
  | cons c rest ih =>
      rw [notFileName?]
      by_cases hc : (c.isSurrogate && !isByteSurrogate c) = true
      · rw [if_pos hc]
        rw [Bool.and_eq_true, Bool.not_eq_true'] at hc
        refine iff_of_false (by simp) fun h => ?_
        have hbyte := h c (by simp) hc.1
        rw [hc.2] at hbyte
        cases hbyte
      · rw [if_neg hc, ih, List.forall_mem_cons]
        have hfirst : c.isSurrogate = true → isByteSurrogate c = true := by
          intro hsurrogate
          simpa [hsurrogate] using hc
        exact ⟨fun h => ⟨hfirst, h⟩, fun h => h.2⟩

/-- The code points that are reported lie within the text. -/
theorem notFileName?_bounds
    {t : Text}
    {position : Nat}
    {cause : Unencodable}
    (h : notFileName? position t = some cause) :
    cause.start < cause.stop ∧ cause.stop ≤ position + t.length := by
  induction t generalizing position with
  | nil =>
      cases h
  | cons c rest ih =>
      rw [notFileName?] at h
      split at h
      · obtain rfl := Option.some.inj h
        have hrun : (rest.takeWhile fun d => d.isSurrogate).length ≤ rest.length :=
          (List.takeWhile_prefix _).length_le
        rw [List.length_cons]
        exact ⟨by dsimp only; omega, by dsimp only; omega⟩
      · obtain ⟨hlt, hle⟩ := ih h
        rw [List.length_cons]
        exact ⟨hlt, by omega⟩

end Text

/-- A path is a file name if bytes stand behind its surrogates and it has no null. -/
theorem FileFault.checkPath_eq_ok_iff
    (path : Text) :
    checkPath path = .ok () ↔
      (∀ c ∈ path, c.isSurrogate = true → Text.isByteSurrogate c = true) ∧ 0 ∉ path := by
  rw [← Text.notFileName?_eq_none_iff 0 path, checkPath]
  cases Text.notFileName? 0 path with
  | some cause =>
      simp
  | none =>
      by_cases h : (0 : CodePoint) ∈ path <;> simp [h]

end Keybox

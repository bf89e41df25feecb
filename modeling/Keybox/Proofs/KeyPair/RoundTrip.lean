import Keybox.KeyPair.Document
import Keybox.Proofs.Json.Records
import Keybox.Proofs.Text.Pieces
import Keybox.Proofs.Text.Utf8

/-!
# Key pairs are read back from their JSON text

The text of a key pair is the text of its record, so reading it gives the record's members; and it
is ASCII, so its bytes are read as the text. From there on a document and the record are checked
alike, whether the pair is a consistent one or not.
-/

namespace Keybox

namespace Record

/-! ## What is written is ASCII -/

theorem isAscii_of_mem_lit
    {s : String}
    (hs : (lit s).all CodePoint.isAscii = true)
    {c : CodePoint}
    (hc : c ∈ lit s) :
    c.isAscii = true :=
  List.all_eq_true.mp hs c hc

theorem hexDigit_isAscii_all : ∀ n < 16, (CodePoint.hexDigit n).isAscii = true := by
  decide +kernel

theorem isAscii_of_mem_hex
    {width n : Nat}
    {c : CodePoint}
    (hc : c ∈ Text.hex width n) :
    c.isAscii = true := by
  induction width generalizing n with
  | zero =>
      cases hc
  | succ width ih =>
      rw [Text.hex, List.mem_append, List.mem_singleton] at hc
      rcases hc with hc | rfl
      · exact ih hc
      · have hmod : CodePoint.hexDigit n = CodePoint.hexDigit (n % 16) := by
          simp [CodePoint.hexDigit]
        rw [hmod]
        exact hexDigit_isAscii_all _ (Nat.mod_lt n (by decide))

theorem isAscii_of_mem_unitEscape
    {n : Nat}
    {c : CodePoint}
    (hc : c ∈ unitEscape n) :
    c.isAscii = true := by
  rw [unitEscape, List.mem_append] at hc
  rcases hc with hc | hc
  · exact isAscii_of_mem_lit (by decide) hc
  · exact isAscii_of_mem_hex hc

theorem isAscii_of_mem_writePoint
    {c d : CodePoint}
    (hd : d ∈ writePoint c) :
    d.isAscii = true := by
  have hwritten := Json.written_writePoint c
  generalize writePoint c = u at hwritten hd
  cases hwritten with
  | short _ _ hascii =>
      rcases List.mem_cons.mp hd with rfl | hd
      · decide
      · rwa [List.mem_singleton.mp hd]
  | plain _ _ _ hascii =>
      rwa [List.mem_singleton.mp hd]
  | unit _ =>
      exact isAscii_of_mem_unitEscape hd
  | pair _ =>
      rcases List.mem_append.mp hd with hd | hd
      · exact isAscii_of_mem_unitEscape hd
      · exact isAscii_of_mem_unitEscape hd

theorem isAscii_of_mem_writeText
    {t : Text}
    {d : CodePoint}
    (hd : d ∈ writeText t) :
    d.isAscii = true := by
  simp only [writeText, List.cons_append, List.mem_cons, List.mem_append, List.mem_flatMap,
    List.not_mem_nil, or_false] at hd
  rcases hd with rfl | ⟨c, -, hd⟩ | rfl
  · decide
  · exact isAscii_of_mem_writePoint hd
  · decide

/-- The text of a record is ASCII, whatever its names and values are. -/
theorem isAscii_of_mem_write
    {r : Record}
    {d : CodePoint}
    (hd : d ∈ r.write) :
    d.isAscii = true := by
  simp only [write, List.mem_append] at hd
  rcases hd with (hd | hd) | hd
  · exact isAscii_of_mem_lit (by decide) hd
  · rcases Text.mem_join hd with hd | ⟨t, ht, hd⟩
    · exact isAscii_of_mem_lit (by decide) hd
    · obtain ⟨m, -, rfl⟩ := List.mem_map.mp ht
      simp only [writeMember, List.mem_append] at hd
      rcases hd with (hd | hd) | hd
      · exact isAscii_of_mem_writeText hd
      · exact isAscii_of_mem_lit (by decide) hd
      · exact isAscii_of_mem_writeText hd
  · exact isAscii_of_mem_lit (by decide) hd

theorem decode_encode_write
    (r : Record) :
    Utf8.decode (Utf8.encode r.write) = .ok r.write := by
  apply Utf8.decode_encode
  intro c hc
  exact Utf8.isSurrogate_of_isAscii (isAscii_of_mem_write hc)

end Record

namespace KeyPair

/-- A key pair with no surrogate pair in its texts. The keys need not fit together. -/
structure Unpaired
    (p : KeyPair) : Prop where
  account : p.account.Unpaired
  publicKey : p.publicKey.Unpaired
  privateKey : p.privateKey.Unpaired
  secretKey : p.secretKey.Unpaired

theorem names_record_nodup
    (p : KeyPair) :
    (p.record.map Prod.fst).Nodup := by
  rw [record, slotMembers, slotMembers]
  split_ifs
  iterate 4
    · simp only [List.cons_append, List.nil_append, List.append_nil, List.map_cons, List.map_nil]
      decide

theorem unpaired_record
    {p : KeyPair}
    (hp : p.Unpaired) :
    p.record.Unpaired := by
  have hslot : ∀ slot : Slot, (p.slotMembers slot).Unpaired := by
    intro slot m hm
    rw [slotMembers] at hm
    split_ifs at hm with hempty
    · cases hm
    · rw [List.mem_singleton.mp hm]
      cases slot
      · exact ⟨(by decide : Text.Unpaired (Slot.field .privateKey)), hp.privateKey⟩
      · exact ⟨(by decide : Text.Unpaired (Slot.field .secretKey)), hp.secretKey⟩
  intro m hm
  simp only [record, List.mem_append, List.mem_cons, List.not_mem_nil, or_false] at hm
  rcases hm with ((rfl | rfl) | hm) | hm
  · exact ⟨(by decide : Text.Unpaired accountField), hp.account⟩
  · exact ⟨(by decide : Text.Unpaired publicField), hp.publicKey⟩
  · exact hslot .privateKey m hm
  · exact hslot .secretKey m hm

theorem read_json
    {p : KeyPair}
    (hp : p.Unpaired) :
    Json.read p.json = .ok (.object p.record.members) :=
  Json.read_write p.record (unpaired_record hp) (names_record_nodup p)

theorem ofText_json
    {p : KeyPair}
    (hp : p.Unpaired)
    (expected : Text)
    (place : Option Text) :
    ofText p.json expected place =
      (decode p.record.members expected place).mapError .rejected := by
  rw [ofText, read_json hp]

/-- The bytes of a pair's text are a document with the record of the pair. -/
theorem ofDocument_bytes_json
    {p : KeyPair}
    (hp : p.Unpaired)
    (expected : Text)
    (place : Option Text) :
    ofDocument (.bytes (Utf8.encode p.json)) expected place =
      (decode p.record.members expected place).mapError .rejected := by
  have htext : Document.text? (.bytes (Utf8.encode p.json)) = .ok p.json := by
    rw [Document.text?, json, Record.decode_encode_write]
    rfl
  rw [ofDocument, htext]
  exact ofText_json hp expected place

/-- **JSON round trip.** The text of a key pair is read as exactly the members of its record, and a
document with that text, given as text or as bytes, has the outcome that checking the record has. -/
theorem json_round_trip
    (p : KeyPair)
    (hp : p.Unpaired) :
    Json.read p.json = .ok (.object p.record.members) ∧
      ∀ (expected : Text) (place : Option Text),
        ofDocument (.text p.json) expected place =
            (decode p.record.members expected place).mapError .rejected ∧
          ofDocument (.bytes (Utf8.encode p.json)) expected place =
            (decode p.record.members expected place).mapError .rejected := by
  refine ⟨read_json hp, ?_⟩
  intro expected place
  exact ⟨ofText_json hp expected place, ofDocument_bytes_json hp expected place⟩

/-- Surrogates that stand alone, a quote, a control, and a code point above the basic plane are all
read back. -/
theorem json_round_trip_surrogates :
    let p : KeyPair :=
      ⟨[0xDC00, 0xD800, chr '"', 0x1F600], [chr '\\', 0x01, 0xD83D], [], [0x7F], [], []⟩
    p.Unpaired ∧ Json.read p.json = .ok (.object p.record.members) :=
  have hp : KeyPair.Unpaired
      ⟨[0xDC00, 0xD800, chr '"', 0x1F600], [chr '\\', 0x01, 0xD83D], [], [0x7F], [], []⟩ :=
    ⟨by decide, by decide, by decide, by decide⟩
  ⟨hp, (json_round_trip _ hp).1⟩

end KeyPair

end Keybox

import Keybox.Proofs.Json.Reading
import Keybox.Proofs.KeyPair.Loading
import Keybox.Proofs.KeyPair.Reread

/-!
# Records that others wrote

The record of a pair can be written in many ways: with its members in any order and with blanks
between them, with escapes in its strings, with members that are overridden later, and with other
members besides. What the text must have in common with the record are the values that its last
members give to the names that are looked at.

**Results.** Whatever renders the record of an accepted pair is read as that pair. With the grammar of
documents this covers all texts that a tool could write for it.
-/

namespace Keybox

namespace Members

theorem last_of_mem
    {ms : List (Text × Json)}
    (hnodup : (ms.map Prod.fst).Nodup)
    {name : Text}
    {v : Json}
    (h : (name, v) ∈ ms) :
    Last ms name v := by
  obtain ⟨before, after, rfl⟩ := List.append_of_mem h
  refine ⟨before, after, rfl, ?_⟩
  rw [List.map_append, List.nodup_append] at hnodup
  exact (List.nodup_cons.mp hnodup.2.1).1

end Members

namespace KeyPair

/-- Members that give the names of a pair's record the values that they have there, at least in the
end, and no value to the other names that are looked at. -/
structure Renders
    (ms : List (Text × Json))
    (p : KeyPair) : Prop where
  last : ∀ m ∈ p.record, Members.Last ms m.1 (.text m.2)
  others : ∀ m ∈ ms, m.1 ∈ p.record.map Prod.fst ∨ m.1 ∉ consulted

/-- The record of a pair as members in which each name stands once. -/
theorem ofList_record
    (p : KeyPair) :
    Members.ofList p.record.members = p.record.members :=
  Members.ofList_of_nodup (by simpa [Record.members, Function.comp_def] using names_record_nodup p)

theorem Renders.find?_eq
    {ms : List (Text × Json)}
    {p : KeyPair}
    (h : Renders ms p)
    {name : Text}
    (hname : name ∈ consulted) :
    (Members.ofList ms).find? name = p.record.members.find? name := by
  have hnames : p.record.members.map Prod.fst = p.record.map Prod.fst := by
    simp [Record.members, Function.comp_def]
  by_cases hrecord : name ∈ p.record.map Prod.fst
  · obtain ⟨m, hm, rfl⟩ := List.mem_map.mp hrecord
    have hmember : (m.1, Json.text m.2) ∈ p.record.members :=
      List.mem_map.mpr ⟨m, hm, rfl⟩
    have hlast : Members.Last p.record.members m.1 (.text m.2) :=
      Members.last_of_mem (by rw [hnames]; exact names_record_nodup p) hmember
    rw [← ofList_record, Members.find?_ofList_eq_some_iff.mpr hlast,
      Members.find?_ofList_eq_some_iff.mpr (h.last m hm)]
  · have habsent : name ∉ ms.map Prod.fst := by
      intro hmem
      obtain ⟨m, hm, rfl⟩ := List.mem_map.mp hmem
      rcases h.others m hm with hin | hout
      · exact hrecord hin
      · exact hout hname
    rw [← ofList_record, Members.find?_ofList_eq_none_iff.mpr habsent,
      Members.find?_ofList_eq_none_iff.mpr (by rwa [hnames])]

/-- Members that render an accepted pair pass the checks and give the pair with the raw keys of its
texts. -/
theorem Renders.decode_eq
    {ms : List (Text × Json)}
    {p : KeyPair}
    (h : Renders ms p)
    (hp : p.Accepted)
    (place : Option Text) :
    decode (Members.ofList ms) p.account place = .ok p.reread := by
  rw [← hp.decode_eq place, decode, decode, check_congr fun _ hname => h.find?_eq hname]

/-- A pair that came out of the checks has the raw keys of its texts. -/
theorem reread_of_decode
    {members : Members}
    {expected : Text}
    {place : Option Text}
    {p : KeyPair}
    (h : decode members expected place = .ok p) :
    p.reread = p := by
  rw [decode, mapError_eq_ok_iff, check_eq_ok_iff] at h
  obtain ⟨seed, slot, -, rfl⟩ := h
  exact reread_eq_self (decode_record_ofSeedIn slot seed expected none)

/-- **Any rendering is read alike.** A document in which an object renders the record of an accepted
pair is read as the pair with the raw keys of its texts; if the pair itself came out of the checks,
that is the pair. Brackets in other members may be nested almost as deep as the reader goes. -/
theorem ofDocument_of_renders
    {p : KeyPair}
    (hp : p.Accepted)
    {levels : Nat}
    (hlevels : levels < Json.depthLimit)
    {content : Text}
    {ms : List (Text × Json)}
    (hcontent : Json.IsObject levels content ms)
    (hms : Renders ms p)
    {d : Document}
    (hd : d.text? = .ok content)
    (place : Option Text) :
    ofDocument d p.account place = .ok p.reread ∧
      ((∃ members expected source, decode members expected source = .ok p) →
        ofDocument d p.account place = .ok p) := by
  have hread : Json.read content = .ok (.object (Members.ofList ms)) :=
    Json.read_of_isObject hlevels hcontent
  have hreread : ofDocument d p.account place = .ok p.reread := by
    rw [ofDocument_of_object _ _ hd hread, hms.decode_eq hp place]
    rfl
  refine ⟨hreread, ?_⟩
  rintro ⟨members, expected, source, hdecode⟩
  rw [hreread, reread_of_decode hdecode]

/-! ## A rendering -/

/-- A code point that needs no escape in a string. -/
def isPlain (c : CodePoint) : Bool :=
  c != chr '"' && c != chr '\\' && decide (0x20 ≤ c.val)

theorem isQuoted_of_isPlain
    {t : Text}
    (h : t.all isPlain = true) :
    Json.IsQuoted (chr '"' :: (t ++ [chr '"'])) t := by
  refine ⟨t, rfl, Json.spells_self ?_⟩
  intro c hc
  have hplain := List.all_eq_true.mp h c hc
  simp only [isPlain, Bool.and_eq_true, bne_iff_ne, decide_eq_true_eq] at hplain
  exact ⟨hplain.1.1, hplain.1.2, hplain.2⟩

/-- The texts of keys may stand in quotes as they are. -/
theorem isPlain_encode
    (key : Bytes) :
    (KeyText.encode key).all isPlain = true := by
  have hdigits : ∀ n < 58, isPlain (Base58.digit n) = true := by decide +kernel
  rw [KeyText.encode, List.all_append, Bool.and_eq_true, List.all_eq_true (l := Base58.encode key)]
  refine ⟨by decide, ?_⟩
  intro c hc
  obtain ⟨n, hn, rfl⟩ := Base58.exists_digit_of_mem_encode hc
  exact hdigits n hn

/-- A pair with the private key in its second slot. Its account is the letter a and a smiling face. -/
def otherPair (seed : Seed) : KeyPair :=
  ofSeedIn .secretKey seed [chr 'a', 0x1F600]

/-- A document that another tool could have written for that pair. The account is given twice, the
second time with escapes. -/
def otherDocument (seed : Seed) : Text :=
  lit " \x7b\"secret_key\" :\"" ++ KeyText.encode seed.privateKey ++
    lit "\",\n\"x\":[ [] ],\"account_id\":null ,\t\"public_key\":\"" ++
    KeyText.encode seed.publicKey ++ lit "\",\"account_id\":\"\\u0061\\ud83D\\uDe00\"\x7d\r"

/-- The members of that document. -/
def otherMembers (seed : Seed) : List (Text × Json) :=
  [(Slot.secretKey.field, .text (KeyText.encode seed.privateKey)),
    (lit "x", .array [.array []]), (accountField, .null),
    (publicField, .text (KeyText.encode seed.publicKey)),
    (accountField, .text [chr 'a', 0x1F600])]

theorem isObject_otherDocument
    (seed : Seed) :
    Json.IsObject 2 (otherDocument seed) (otherMembers seed) := by
  have hnone : Json.IsBlanks [] := by decide
  have hspace : Json.IsBlanks (lit " ") := by decide
  have hsecret : Json.IsMember (Json.IsValue 2) _
      (Slot.secretKey.field, .text (KeyText.encode seed.privateKey)) :=
    ⟨_, lit " ", [], _, rfl, isQuoted_of_isPlain (t := Slot.secretKey.field) (by decide), hspace,
      hnone, .text (isQuoted_of_isPlain (isPlain_encode _))⟩
  have hinner : Json.IsValue 1 (chr '[' :: ([] ++ [chr ']'])) (.array []) :=
    .array (.inl ⟨hnone, rfl⟩)
  have hextra : Json.IsMember (Json.IsValue 2) _ (lit "x", .array [.array []]) :=
    ⟨_, [], [], _, rfl, isQuoted_of_isPlain (t := lit "x") (by decide), hnone, hnone,
      .array (.inr (.one hspace hinner hspace))⟩
  have hnull : Json.IsMember (Json.IsValue 2) _ (accountField, .null) :=
    ⟨_, [], [], lit "null", rfl, isQuoted_of_isPlain (t := accountField) (by decide), hnone, hnone,
      .word (by simp [Json.words])⟩
  have hpublic : Json.IsMember (Json.IsValue 2) _
      (publicField, .text (KeyText.encode seed.publicKey)) :=
    ⟨_, [], [], _, rfl, isQuoted_of_isPlain (t := publicField) (by decide), hnone, hnone,
      .text (isQuoted_of_isPlain (isPlain_encode _))⟩
  have hletter : Json.Numbers (lit "0061") (chr 'a') :=
    ⟨_, _, _, _, 0, 0, 6, 1, rfl, by decide⟩
  have hhigh : Json.Numbers (lit "d83D") 0xD83D :=
    ⟨_, _, _, _, 0xD, 8, 3, 0xD, rfl, by decide⟩
  have hlow : Json.Numbers (lit "De00") 0xDE00 :=
    ⟨_, _, _, _, 0xD, 0xE, 0, 0, rfl, by decide⟩
  have haccount : Json.IsMember (Json.IsValue 2) _ (accountField, .text [chr 'a', 0x1F600]) :=
    ⟨_, [], [], _, rfl, isQuoted_of_isPlain (t := accountField) (by decide), hnone, hnone, .text
      ⟨_, rfl, .unit hletter (by rintro ⟨⟩) (.pair hhigh hlow (by decide) (by decide) (by decide) .nil)⟩⟩
  refine ⟨lit " ", _, lit "\r", ?_, hspace, by decide, .inr
    (.cons hnone hsecret hnone (.cons (s := lit "\n") (by decide) hextra hnone
      (.cons hnone hnull hspace (.cons (s := lit "\t") (by decide) hpublic hnone
        (.one hnone haccount hnone)))))⟩
  simp only [otherDocument, List.append_assoc, List.cons_append, List.nil_append]
  rfl

/-- The record of a seed's pair has the account, the public key and the one slot that is in use. -/
theorem record_ofSeedIn
    (slot : Slot)
    (seed : Seed)
    (account : Text) :
    (ofSeedIn slot seed account).record =
      [(accountField, account), (publicField, KeyText.encode seed.publicKey),
        (slot.field, KeyText.encode seed.privateKey)] := by
  cases slot <;> simp [record, slotMembers, KeyPair.slot, ofSeedIn, encode_ne_nil]

theorem accepted_otherPair
    (seed : Seed) :
    (otherPair seed).Accepted :=
  ⟨_, decode_record_ofSeedIn .secretKey seed [chr 'a', 0x1F600] none⟩

theorem renders_otherMembers
    (seed : Seed) :
    Renders (otherMembers seed) (otherPair seed) := by
  have hrecord : (otherPair seed).record = _ := record_ofSeedIn .secretKey seed [chr 'a', 0x1F600]
  refine ⟨?_, ?_⟩
  · rw [hrecord]
    simp only [List.forall_mem_cons]
    exact ⟨⟨[_, _, _, _], [], rfl, by simp⟩, ⟨[_, _, _], [_], rfl, by simp; decide⟩,
      ⟨[], [_, _, _, _], rfl, by simp; decide⟩, List.forall_mem_nil _⟩
  · rw [hrecord, otherMembers]
    simp only [List.forall_mem_cons, List.map_cons, List.map_nil]
    exact ⟨by simp, by decide, by simp, by simp, by simp, List.forall_mem_nil _⟩

theorem other_document_is_read :
    (otherPair Seed.zero).Accepted ∧ 2 < Json.depthLimit ∧
      Json.IsObject 2 (otherDocument Seed.zero) (otherMembers Seed.zero) ∧
      ofDocument (.text (otherDocument Seed.zero)) (otherPair Seed.zero).account none =
        .ok (otherPair Seed.zero) :=
  ⟨accepted_otherPair Seed.zero, by decide, isObject_otherDocument Seed.zero,
    (ofDocument_of_renders (accepted_otherPair Seed.zero) (by decide)
      (isObject_otherDocument Seed.zero) (renders_otherMembers Seed.zero) rfl none).2
        ⟨_, _, none, decode_record_ofSeedIn .secretKey Seed.zero [chr 'a', 0x1F600] none⟩⟩

end KeyPair

end Keybox

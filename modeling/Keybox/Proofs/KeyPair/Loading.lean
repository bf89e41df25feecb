import Keybox.Failure
import Keybox.Proofs.Except
import Keybox.Proofs.Json.LongNumbers
import Keybox.Proofs.Text.Utf8

/-!
# What loading a document comes to

A document from outside gives a key pair or is rejected with an error of validation, so that who
loads it can treat it as a bad file and go on. One kind of document falls through: a text in which
the reader comes to an integer with more digits than it converts.

**Results.** Every document is loaded, or rejected, or refused for such an integer, which is then in
its text. What holds no object is rejected as a malformed record. The refusal is an error of values
and no rejection, and large numbers bring it about. A text comes to the same whether it is handed
over as it is or as its bytes, and bytes that are those of no text are rejected.
-/

namespace Keybox

/-- All reasons are about a record that is not valid. -/
theorem Reason.isValidation_kind
    (r : Reason) :
    r.kind.isValidation = true := by
  cases r <;> rfl

/-- A document that is a text and holds an object. -/
def Document.HoldsObject
    (d : Document) : Prop :=
  ∃ content members, d.text? = .ok content ∧ Json.read content = .ok (.object members)

/-- A document that is a text and holds the object with these members. -/
def Document.Holds
    (d : Document)
    (members : Members) : Prop :=
  ∃ content, d.text? = .ok content ∧ Json.read content = .ok (.object members)

namespace KeyPair

variable
  {d : Document}
  {content : Text}
  (expected : Text)
  (place : Option Text)

theorem ofDocument_of_unreadable
    {cause : Unreadable}
    (htext : d.text? = .error cause) :
    ofDocument d expected place = .error (rejectedFor place (.unreadable cause)) := by
  rw [ofDocument, htext]

theorem ofDocument_of_fault
    (htext : d.text? = .ok content)
    {fault : Json.Fault}
    (hread : Json.read content = .error fault) :
    ofDocument d expected place = .error (unreadableFor place content fault) := by
  rw [ofDocument, htext]
  dsimp only
  rw [ofText, hread]

theorem ofDocument_of_object
    (htext : d.text? = .ok content)
    {members : Members}
    (hread : Json.read content = .ok (.object members)) :
    ofDocument d expected place = (decode members expected place).mapError .rejected := by
  rw [ofDocument, htext]
  dsimp only
  rw [ofText, hread]

theorem ofDocument_of_notObject
    (htext : d.text? = .ok content)
    {v : Json}
    (hread : Json.read content = .ok v)
    (hv : ∀ members, v ≠ .object members) :
    ofDocument d expected place = .error (rejectedFor place .notObject) := by
  rw [ofDocument, htext]
  dsimp only
  rw [ofText, hread]
  cases v with
  | object members =>
      exact absurd rfl (hv members)
  | _ =>
      rfl

/-- A fault of reading is a rejection but for one kind. -/
theorem unreadableFor_eq
    (content : Text)
    (fault : Json.Fault) :
    unreadableFor place content fault =
        rejectedFor place (.unreadable (.grammar content fault)) ∨
      ∃ n, fault = .tooLong n ∧ unreadableFor place content fault = .oversized n := by
  cases fault with
  | malformed issue offset =>
      exact Or.inl rfl
  | tooDeep bracket =>
      exact Or.inl rfl
  | tooLong n =>
      exact Or.inr ⟨n, rfl, rfl⟩

/-- What a document holds decides what it comes to: an object is checked as a record, anything else
is a malformed record, and reading may end at an integer before either is known. -/
theorem ofDocument_cases
    (d : Document) :
    (∃ members, d.Holds members ∧ ∀ expected place,
        ofDocument d expected place = (decode members expected place).mapError .rejected) ∨
      (∃ reason : Reason, (∀ members, ¬ d.Holds members) ∧ reason.kind = .malformedRecord ∧
        ∀ expected place, ofDocument d expected place = .error (rejectedFor place reason)) ∨
      ∃ n, (∀ members, ¬ d.Holds members) ∧
        ∀ expected place, ofDocument d expected place = .error (.oversized n) := by
  cases htext : d.text? with
  | error cause =>
      refine Or.inr (Or.inl ⟨.unreadable cause, ?_, rfl, fun expected place =>
        ofDocument_of_unreadable expected place htext⟩)
      rintro members ⟨content, hcontent, -⟩
      rw [htext] at hcontent
      cases hcontent
  | ok content =>
      have honly : ∀ members, d.Holds members → Json.read content = .ok (.object members) := by
        rintro members ⟨other, hother, hread⟩
        obtain rfl := Except.ok.inj (htext.symm.trans hother)
        exact hread
      cases hread : Json.read content with
      | error fault =>
          have hnone : ∀ members, ¬ d.Holds members := by
            intro members hholds
            rw [honly members hholds] at hread
            cases hread
          have h : ∀ expected place, ofDocument d expected place =
              .error (unreadableFor place content fault) :=
            fun expected place => ofDocument_of_fault expected place htext hread
          cases fault with
          | malformed issue offset =>
              exact Or.inr (Or.inl ⟨_, hnone, rfl, h⟩)
          | tooDeep bracket =>
              exact Or.inr (Or.inl ⟨_, hnone, rfl, h⟩)
          | tooLong n =>
              exact Or.inr (Or.inr ⟨n, hnone, h⟩)
      | ok v =>
          by_cases hobject : ∃ members, v = .object members
          · obtain ⟨members, rfl⟩ := hobject
            exact Or.inl ⟨members, ⟨content, htext, hread⟩, fun expected place =>
              ofDocument_of_object expected place htext hread⟩
          · refine Or.inr (Or.inl ⟨.notObject, ?_, rfl, fun expected place =>
              ofDocument_of_notObject expected place htext hread
                fun members heq => hobject ⟨members, heq⟩⟩)
            intro members hholds
            rw [honly members hholds] at hread
            exact hobject ⟨members, (Except.ok.inj hread).symm⟩

/-- A pair that is loaded is that of the document's object, which passes its checks. -/
theorem exists_holds_of_ofDocument
    {p : KeyPair}
    {expected : Text}
    {place : Option Text}
    (h : ofDocument d expected place = .ok p) :
    ∃ members, d.Holds members ∧ check members expected = .ok p := by
  rcases ofDocument_cases d with ⟨members, hmembers, heq⟩ | ⟨reason, -, -, heq⟩ | ⟨n, -, heq⟩
  · rw [heq, mapError_eq_ok_iff, decode, mapError_eq_ok_iff] at h
    exact ⟨members, hmembers, h⟩
  · rw [heq] at h
    cases h
  · rw [heq] at h
    cases h

/-- **A document is loaded or rejected.** Every document gives a key pair, or a rejection with an
error of validation, which is that of a malformed record unless the document holds an object. The
one exception is a document whose reading ends at an integer of more digits than the limit; these
stand in its text one after another, and it is refused for their number. -/
theorem ofDocument_loads_or_rejects
    (d : Document)
    (expected : Text)
    (place : Option Text) :
    (∃ p, ofDocument d expected place = .ok p) ∨
      (∃ r, ofDocument d expected place = .error (.rejected r) ∧ r.kind.isValidation = true ∧
        (d.HoldsObject ∨ r.kind = .malformedRecord)) ∨
      ∃ content n, d.text? = .ok content ∧ Json.read content = .error (.tooLong n) ∧
        Json.HasLongRun content n ∧ ofDocument d expected place = .error (.oversized n) := by
  have hrejected : ∀ reason, ofDocument d expected place = .error (rejectedFor place reason) →
      (d.HoldsObject ∨ reason.kind = .malformedRecord) →
      ∃ r, ofDocument d expected place = .error (.rejected r) ∧ r.kind.isValidation = true ∧
        (d.HoldsObject ∨ r.kind = .malformedRecord) :=
    fun reason h hkind => ⟨_, h, reason.isValidation_kind, hkind⟩
  cases htext : d.text? with
  | error cause =>
      have h := ofDocument_of_unreadable expected place htext
      exact Or.inr (Or.inl (hrejected _ h (Or.inr rfl)))
  | ok content =>
      cases hread : Json.read content with
      | error fault =>
          have h := ofDocument_of_fault expected place htext hread
          rcases unreadableFor_eq place content fault with heq | ⟨n, rfl, heq⟩
          · rw [heq] at h
            exact Or.inr (Or.inl (hrejected _ h (Or.inr rfl)))
          · rw [heq] at h
            exact Or.inr (Or.inr ⟨content, n, rfl, hread, Json.hasLongRun_of_read hread, h⟩)
      | ok v =>
          by_cases hobject : ∃ members, v = .object members
          · obtain ⟨members, rfl⟩ := hobject
            have h := ofDocument_of_object expected place htext hread
            cases hcheck : check members expected with
            | ok p =>
                rw [decode, hcheck] at h
                exact Or.inl ⟨p, h⟩
            | error reason =>
                rw [decode, hcheck] at h
                exact Or.inr (Or.inl
                  (hrejected reason h (Or.inl ⟨content, members, htext, hread⟩)))
          · have h := ofDocument_of_notObject expected place htext hread
              fun members heq => hobject ⟨members, heq⟩
            exact Or.inr (Or.inl (hrejected _ h (Or.inr rfl)))

/-- The numeral of a number with too many digits is refused, and not as a bad record. -/
theorem ofDocument_of_long
    {ds : Text}
    (hdigits : ∀ d ∈ ds, d.isDigit = true)
    (hzero : ds.head? ≠ some (chr '0'))
    (hlong : Json.digitLimit < ds.length) :
    ofDocument (.text ds) expected place = .error (.oversized ds.length) :=
  ofDocument_of_fault expected place (d := .text ds) rfl (Json.read_of_long hdigits hzero hlong)

/-- A document of 4301 ones is not rejected, whatever account is expected: loading it fails with an
error of the family of bad values. -/
theorem long_number_is_not_rejected :
    let d : Document := .text (List.replicate 4301 (chr '1'))
    (∀ expected place, ofDocument d expected place = .error (.oversized 4301)) ∧
      (Failure.document (.oversized 4301)).family = .value ∧
      ¬ ∀ (d : Document) expected place fault, ofDocument d expected place = .error fault →
          ∃ r, fault = .rejected r ∧ r.kind.isValidation = true := by
  have h : ∀ expected place, ofDocument (.text (List.replicate 4301 (chr '1'))) expected place =
      .error (.oversized 4301) := by
    intro expected place
    rw [ofDocument_of_long expected place ?_ ?_ ?_, List.length_replicate]
    · intro d hd
      rw [List.eq_of_mem_replicate hd]
      rfl
    · decide
    · rw [List.length_replicate]
      decide
  refine ⟨h, rfl, ?_⟩
  intro hall
  obtain ⟨r, hr, -⟩ := hall _ [] none _ (h [] none)
  cases hr

/-! ## Text and bytes -/

theorem text?_bytes_encode
    (hscalars : ∀ c ∈ content, c.isSurrogate = false) :
    Document.text? (.bytes (Utf8.encode content)) = Document.text? (.text content) := by
  rw [Document.text?, Document.text?, Utf8.decode_encode hscalars, mapError_ok]

/-- Bytes that are those of no text are not read. -/
theorem exists_fault_of_not_encode
    {data : Bytes}
    (h : ∀ t : Text, (∀ c ∈ t, c.isSurrogate = false) → Utf8.encode t ≠ data) :
    ∃ fault, Utf8.decode data = .error fault := by
  cases hdecode : Utf8.decode data with
  | ok t =>
      obtain ⟨hscalars, hencode⟩ := Utf8.decode_eq_ok_iff.mp hdecode
      exact absurd hencode (h t hscalars)
  | error fault =>
      exact ⟨fault, rfl⟩

/-- **Text and bytes agree.** A text without surrogates comes to the same, handed over as it is or
as its bytes: the same pair, or the same rejection with the same message and place, or the same
refusal. No other bytes are taken for a text: they are rejected for the first run of them that is
none. -/
theorem text_and_bytes_agree
    (expected : Text)
    (place : Option Text) :
    (∀ t : Text, (∀ c ∈ t, c.isSurrogate = false) →
        ofDocument (.bytes (Utf8.encode t)) expected place =
          ofDocument (.text t) expected place) ∧
      ∀ data : Bytes,
        (∀ t : Text, (∀ c ∈ t, c.isSurrogate = false) → Utf8.encode t ≠ data) →
          ∃ fault, Utf8.decode data = .error fault ∧
            ofDocument (.bytes data) expected place =
              .error (rejectedFor place (.unreadable (.encoding fault))) := by
  constructor
  · intro t hscalars
    rw [ofDocument, ofDocument, text?_bytes_encode hscalars]
  · intro data hnone
    obtain ⟨fault, hfault⟩ := exists_fault_of_not_encode hnone
    have htext : Document.text? (.bytes data) = .error (.encoding fault) := by
      rw [Document.text?, hfault, mapError_error]
    exact ⟨fault, hfault, ofDocument_of_unreadable expected place htext⟩

/-- The position of what is too much counts code points, of which the seven bytes before the last
quote are two. -/
theorem position_in_bytes_counts_points :
    let t : Text := [chr '"', 0x20AC, 0x1F600, chr '"', chr 'x']
    (∀ c ∈ t, c.isSurrogate = false) ∧ (Utf8.encode t).length = 10 ∧
      ∃ r, ofDocument (.bytes (Utf8.encode t)) [] none = .error (.rejected r) ∧
        r.message = lit "keystore: invalid JSON: Extra data: line 1 column 5 (char 4)" := by
  have hscalars : ∀ c ∈ ([chr '"', 0x20AC, 0x1F600, chr '"', chr 'x'] : Text),
      c.isSurrogate = false := by
    simp only [List.forall_mem_cons]
    exact ⟨rfl, rfl, rfl, rfl, rfl, List.forall_mem_nil _⟩
  have hread : Json.read [chr '"', 0x20AC, 0x1F600, chr '"', chr 'x'] =
      .error (.malformed .extraData 4) := by
    have hfault : (Json.read [chr '"', 0x20AC, 0x1F600, chr '"', chr 'x']).map (fun _ => ()) =
        .error (.malformed .extraData 4) := by
      decide +kernel
    exact map_eq_error_iff.mp hfault
  have htext := ofDocument_of_fault (d := .text _) [] none rfl hread
  refine ⟨hscalars, rfl, _, ((text_and_bytes_agree [] none).1 _ hscalars).trans htext, ?_⟩
  decide +kernel

end KeyPair

end Keybox

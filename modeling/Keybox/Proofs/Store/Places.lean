import Keybox.Proofs.KeyPair.Order
import Keybox.Proofs.Store.Secrecy

/-!
# Which rejections name their place

A record or a document can be checked with the place it comes from, which is its path when it is
read from a file. The place has no part in what is accepted. A rejection is to carry it and to show
it at the end of its message.

The two checks that are made before the slots are looked at leave it out: a record is turned away
for its account or for its public key in the same words whatever the place is.

**Results.** With a place, a record or a document comes to what it comes to without one, with the
place added to the rejection, unless the record is turned away. So the rejection of a file names the
file exactly when no record is in it that is turned away.
-/

namespace Keybox

/-! ## Rejections with a place -/

theorem Rejection.message_ofReason_none
    (r : Reason) :
    (ofReason none r).message = r.message := by
  have hplace : (ofReason none r).place = none := ite_self none
  rw [message, hplace, ErrorKind.describe]
  rfl

/-- A reason that names the place is followed by it. -/
theorem Rejection.message_ofReason_some
    {r : Reason}
    (hr : r.namesPlace = true)
    {place : Text}
    (hplace : place ≠ []) :
    (ofReason (some place) r).message = r.message ++ lit ": " ++ place := by
  have hsome : (ofReason (some place) r).place = some place := if_pos hr
  rw [message, hsome, ErrorKind.describe]
  exact if_pos ⟨r.isValidation_kind, hplace⟩

/-- A reason of a document that holds no record names the place. -/
theorem Reason.namesPlace_of_malformedRecord
    {r : Reason}
    (h : r.kind = .malformedRecord) :
    r.namesPlace = true := by
  cases r with
  | otherAccount found expected =>
      cases h
  | untaggedPublic found =>
      cases h
  | _ =>
      rfl

namespace KeyPair

/-- What is loaded with a place, against what is loaded without: the same pair, the same refusal of
a number, or a rejection of the same kind that has the place and shows it after its message. -/
inductive Annotates (place : Text) :
    Except LoadFault KeyPair → Except LoadFault KeyPair → Prop
  | pair
      (p : KeyPair) :
      Annotates place (.ok p) (.ok p)
  | oversized
      (digits : Nat) :
      Annotates place (.error (.oversized digits)) (.error (.oversized digits))
  | rejected
      {plain placed : Rejection}
      (kind : placed.kind = plain.kind)
      (atPlace : placed.place = some place)
      (message : placed.message = plain.message ++ lit ": " ++ place) :
      Annotates place (.error (.rejected plain)) (.error (.rejected placed))

theorem annotates_rejectedFor
    {place : Text}
    (hplace : place ≠ [])
    {r : Reason}
    (hr : r.namesPlace = true) :
    Annotates place (.error (rejectedFor none r)) (.error (rejectedFor (some place) r)) := by
  refine .rejected rfl (if_pos hr) ?_
  rw [Rejection.message_ofReason_some hr hplace, Rejection.message_ofReason_none]

/-- A record that fails a check that is made before the slots are looked at. -/
def TurnedAway
    (members : Members)
    (expected : Text) : Prop :=
  ∃ stage ∈ Stage.slots.earlier, ¬ stage.Passes members expected

variable
  {members : Members}
  {expected place : Text}

/-- A record is turned away for its account or for its public key. -/
theorem turnedAway_iff :
    TurnedAway members expected ↔
      ¬ Stage.account.Passes members expected ∨ ¬ Stage.publicTag.Passes members expected := by
  simp [TurnedAway, Stage.earlier, Stage.order]

theorem FailsFirst.turnedAway_iff
    {stage : Stage}
    (h : FailsFirst members expected stage) :
    TurnedAway members expected ↔ stage ∈ Stage.slots.earlier := by
  constructor
  · rintro ⟨other, hother, hfails⟩
    by_contra hlater
    -- A check that does not come before the slots comes after every check that does.
    have hbefore : other ∈ stage.earlier := by
      revert hother hlater
      cases other <;> cases stage <;> decide
    exact hfails (h.passes other hbefore)
  · intro hstage
    exact ⟨stage, hstage, h.fails⟩

theorem Stage.Gives.namesPlace_iff
    {stage : Stage}
    {r : Reason}
    (h : stage.Gives r) :
    r.namesPlace = true ↔ stage ∉ Stage.slots.earlier := by
  cases h <;> simp [Reason.namesPlace, Stage.earlier, Stage.order]

/-- The reason against a record names the place unless the record is turned away. -/
theorem namesPlace_iff_of_check
    {r : Reason}
    (h : check members expected = .error r) :
    r.namesPlace = true ↔ ¬ TurnedAway members expected := by
  obtain ⟨stage, hfirst, hgives⟩ := failsFirst_of_check_eq_error h
  rw [hgives.namesPlace_iff, hfirst.turnedAway_iff]

/-! ## Records and documents -/

theorem annotates_decode
    (hplace : place ≠ [])
    (h : ¬ TurnedAway members expected) :
    Annotates place ((decode members expected none).mapError .rejected)
      ((decode members expected (some place)).mapError .rejected) := by
  rw [decode, decode]
  cases hcheck : check members expected with
  | ok p =>
      exact .pair p
  | error r =>
      exact annotates_rejectedFor hplace ((namesPlace_iff_of_check hcheck).mpr h)

/-- A record that is turned away has one rejection, which has no place. -/
theorem TurnedAway.exists_rejection
    (h : TurnedAway members expected) :
    ∃ r : Rejection, r.place = none ∧
      ∀ place, decode members expected place = .error r := by
  cases hcheck : check members expected with
  | ok p =>
      obtain ⟨stage, -, hfails⟩ := h
      exact absurd (passes_of_check_eq_ok hcheck stage) hfails
  | error r =>
      have hr : r.namesPlace ≠ true := fun hnames => (namesPlace_iff_of_check hcheck).mp hnames h
      refine ⟨⟨r, none⟩, rfl, fun place => ?_⟩
      rw [decode, hcheck, mapError_error, Rejection.ofReason, if_neg hr]

end KeyPair

/-- A document holds the members of one object. -/
theorem Document.Holds.unique
    {d : Document}
    {members others : Members}
    (h : d.Holds members)
    (hothers : d.Holds others) :
    others = members := by
  obtain ⟨content, htext, hread⟩ := h
  obtain ⟨other, hother, hreadOther⟩ := hothers
  obtain rfl := Except.ok.inj (htext.symm.trans hother)
  exact Json.object.inj (Except.ok.inj (hreadOther.symm.trans hread))

/-- A document that holds a record that is turned away. -/
def Document.TurnedAway
    (d : Document)
    (expected : Text) : Prop :=
  ∃ members, d.Holds members ∧ KeyPair.TurnedAway members expected

namespace KeyPair

variable
  {d : Document}
  {expected place : Text}

theorem annotates_ofDocument
    (hplace : place ≠ [])
    (h : ¬ d.TurnedAway expected) :
    Annotates place (ofDocument d expected none) (ofDocument d expected (some place)) := by
  rcases ofDocument_cases d with ⟨members, hholds, heq⟩ | ⟨reason, -, hkind, heq⟩ | ⟨n, -, heq⟩
  · rw [heq, heq]
    exact annotates_decode hplace fun haway => h ⟨members, hholds, haway⟩
  · rw [heq, heq]
    exact annotates_rejectedFor hplace (Reason.namesPlace_of_malformedRecord hkind)
  · rw [heq, heq]
    exact .oversized n

theorem ofDocument_of_turnedAway
    (h : d.TurnedAway expected) :
    ∃ r : Rejection, r.place = none ∧
      ∀ place, ofDocument d expected place = .error (.rejected r) := by
  obtain ⟨members, hholds, haway⟩ := h
  obtain ⟨r, hr, hdecode⟩ := haway.exists_rejection
  rcases ofDocument_cases d with ⟨others, hothers, heq⟩ | ⟨_, hnone, -⟩ | ⟨_, hnone, -⟩
  · obtain rfl := hholds.unique hothers
    exact ⟨r, hr, fun place => by rw [heq, hdecode, mapError_error]⟩
  · exact absurd hholds (hnone members)
  · exact absurd hholds (hnone members)

end KeyPair

/-! ## Files -/

namespace Store

variable
  {w w' : World}
  {path expected : Text}
  {r : Rejection}

/-- A rejection names a file: it has its path, and its message ends with it. -/
def NamesFile
    (r : Rejection)
    (path : Text) : Prop :=
  r.place = some path ∧ lit ": " ++ path <:+ r.message

theorem ne_nil_of_read
    {t : FileTree}
    {content : Bytes}
    (h : (FileAct.read path).run t = (.ok content, t)) :
    path ≠ [] := by
  obtain ⟨-, hread⟩ := FileAct.run_onPath_eq_ok_iff.mp h
  obtain ⟨_, hcontent, -⟩ := map_eq_ok_iff.mp hread
  rw [FileTree.contentAt, bind_eq_ok_iff] at hcontent
  obtain ⟨target, hresolve, -⟩ := hcontent
  obtain ⟨hroute, -⟩ := FileTree.resolve_eq_ok_iff.mp hresolve
  exact (FileTree.routeOf_eq_ok_iff.mp hroute).1

theorem holdsRecord_iff
    {content : Bytes}
    (hfile : (FileAct.read path).run w.tree = (.ok content, w.tree))
    {members : Members} :
    w.HoldsRecord path members ↔ (Document.bytes content).Holds members := by
  simp only [World.HoldsRecord, Document.Holds, Document.text?, mapError_eq_ok_iff]
  constructor
  · rintro ⟨other, document, hother, hdecode, hread⟩
    obtain rfl := eq_of_run_ok hfile hother
    exact ⟨document, hdecode, hread⟩
  · rintro ⟨document, hdecode, hread⟩
    exact ⟨content, document, hfile, hdecode, hread⟩

/-- A file is rejected for the document in it, with its path as the place. -/
theorem exists_content_of_rejected
    (h : (readPair path expected).run w = (.error (.document (.rejected r)), w')) :
    ∃ content, (FileAct.read path).run w.tree = (.ok content, w.tree) ∧
      KeyPair.ofDocument (.bytes content) expected (some path) = .error (.rejected r) := by
  have htree := FileAct.run_read_tree path w.tree
  rw [readPair, run_bind, Act.run_files_of_same htree] at h
  rcases hfile : (FileAct.read path).run w.tree with ⟨result, t⟩
  rw [hfile] at h htree
  obtain rfl : t = w.tree := htree
  cases result with
  | error fault =>
      cases h
  | ok content =>
      refine ⟨content, rfl, ?_⟩
      cases hdocument : KeyPair.ofDocument (.bytes content) expected (some path) with
      | ok p =>
          simp only [mapError_ok, hdocument] at h
          cases h
      | error fault =>
          simp only [mapError_ok, hdocument] at h
          cases fault with
          | rejected other =>
              cases h
              rfl
          | oversized digits =>
              cases h

/-- The rejection of a file names the file exactly when no record in it is turned away. -/
theorem readPair_namesFile_iff
    (h : (readPair path expected).run w = (.error (.document (.rejected r)), w')) :
    NamesFile r path ↔
      ¬ ∃ members, w.HoldsRecord path members ∧ KeyPair.TurnedAway members expected := by
  obtain ⟨content, hfile, hdocument⟩ := exists_content_of_rejected h
  have haway : (∃ members, w.HoldsRecord path members ∧ KeyPair.TurnedAway members expected) ↔
      (Document.bytes content).TurnedAway expected := by
    simp only [holdsRecord_iff hfile, Document.TurnedAway]
  rw [haway]
  constructor
  · rintro ⟨hplace, -⟩ hturned
    obtain ⟨other, hnone, hother⟩ := KeyPair.ofDocument_of_turnedAway hturned
    rw [hother] at hdocument
    cases hdocument
    rw [hnone] at hplace
    cases hplace
  · intro hkept
    -- The empty path cannot be read, so the place is one that is shown.
    have hannotates := KeyPair.annotates_ofDocument (ne_nil_of_read hfile) hkept
    rw [hdocument] at hannotates
    generalize KeyPair.ofDocument (.bytes content) expected none = plain at hannotates
    cases hannotates with
    | rejected kind atPlace message =>
        refine ⟨atPlace, ?_⟩
        rw [message, List.append_assoc]
        exact List.suffix_append _ _

theorem exists_path_of_rejected
    {store : Store}
    {network : Text}
    (h : (store.load network expected).run w = (.error (.document (.rejected r)), w')) :
    ∃ path, (store.pathFor network expected).run w = (.ok path, w) ∧
      (readPair path expected).run w = (.error (.document (.rejected r)), w') := by
  have hworld := run_pathFor store network expected w
  rw [load, run_bind] at h
  rcases hpath : (store.pathFor network expected).run w with ⟨result, w₁⟩
  rw [hpath] at h hworld
  obtain rfl : w₁ = w := hworld
  cases result with
  | ok path =>
      exact ⟨path, rfl, h⟩
  | error failure =>
      obtain rfl := eq_homeless_of_pathFor hpath
      cases h

/-- **Places annotate rejections, but for records that are turned away.** A record or a document
that is checked with a place comes to what it comes to without, with the place added to the
rejection. If the record is turned away, it comes to one rejection in either case. The rejection of
a file, on its own path or through a store, names the file exactly when no record in it is turned
away. -/
theorem place_annotates_unless_turned_away
    {place : Text}
    (hplace : place ≠ [])
    (expected : Text) :
    (∀ members,
        (¬ KeyPair.TurnedAway members expected →
          KeyPair.Annotates place ((KeyPair.decode members expected none).mapError .rejected)
            ((KeyPair.decode members expected (some place)).mapError .rejected)) ∧
        (KeyPair.TurnedAway members expected → ∃ r : Rejection, r.place = none ∧
          KeyPair.decode members expected none = .error r ∧
            KeyPair.decode members expected (some place) = .error r)) ∧
      (∀ d : Document,
        (¬ d.TurnedAway expected →
          KeyPair.Annotates place (KeyPair.ofDocument d expected none)
            (KeyPair.ofDocument d expected (some place))) ∧
        (d.TurnedAway expected → ∃ r : Rejection, r.place = none ∧
          KeyPair.ofDocument d expected none = .error (.rejected r) ∧
            KeyPair.ofDocument d expected (some place) = .error (.rejected r))) ∧
      (∀ (w w' : World) path r,
        (readPair path expected).run w = (.error (.document (.rejected r)), w') →
          (NamesFile r path ↔
            ¬ ∃ members, w.HoldsRecord path members ∧ KeyPair.TurnedAway members expected)) ∧
      ∀ (w w' : World) (store : Store) network r,
        (store.load network expected).run w = (.error (.document (.rejected r)), w') →
          ∃ path, (store.pathFor network expected).run w = (.ok path, w) ∧
            (NamesFile r path ↔
              ¬ ∃ members, w.HoldsRecord path members ∧
                KeyPair.TurnedAway members expected) := by
  refine ⟨fun members => ⟨KeyPair.annotates_decode hplace, ?_⟩,
    fun d => ⟨KeyPair.annotates_ofDocument hplace, ?_⟩, ?_, ?_⟩
  · intro haway
    obtain ⟨r, hnone, hdecode⟩ := haway.exists_rejection
    exact ⟨r, hnone, hdecode none, hdecode (some place)⟩
  · intro haway
    obtain ⟨r, hnone, hdocument⟩ := KeyPair.ofDocument_of_turnedAway haway
    exact ⟨r, hnone, hdocument none, hdocument (some place)⟩
  · intro w w' path r hrun
    exact readPair_namesFile_iff hrun
  · intro w w' store network r hrun
    obtain ⟨path, hpath, hread⟩ := exists_path_of_rejected hrun
    exact ⟨path, hpath, readPair_namesFile_iff hread⟩

/-- A record of the expected account with a tagged public key, in which both slots are filled. -/
def bothSlotsFilled : Members :=
  [(KeyPair.accountField, .text (lit "alice")), (KeyPair.publicField, .text (lit "ed25519:")),
    (Slot.privateKey.field, .text (lit "one")), (Slot.secretKey.field, .text (lit "one"))]

/-- The rejection of a record that is not turned away has the place and shows it. -/
theorem bothSlots_rejection_has_place :
    lit "k.json" ≠ [] ∧ ¬ KeyPair.TurnedAway bothSlotsFilled (lit "alice") ∧
      KeyPair.decode bothSlotsFilled (lit "alice") (some (lit "k.json")) =
        .error ⟨.bothSlots, some (lit "k.json")⟩ ∧
      KeyPair.Annotates (lit "k.json")
        ((KeyPair.decode bothSlotsFilled (lit "alice") none).mapError .rejected)
        ((KeyPair.decode bothSlotsFilled (lit "alice") (some (lit "k.json"))).mapError
          .rejected) := by
  have hplace : lit "k.json" ≠ [] := by decide
  have hkept : ¬ KeyPair.TurnedAway bothSlotsFilled (lit "alice") := by
    rw [KeyPair.turnedAway_iff, not_or, not_not, not_not]
    exact ⟨rfl, [], rfl⟩
  exact ⟨hplace, hkept, rfl,
    ((place_annotates_unless_turned_away hplace (lit "alice")).1 bothSlotsFilled).1 hkept⟩

/-- The rejection of a record of another account has no place and does not show it. -/
theorem other_account_is_rejected_without_place :
    let members : Members := [(KeyPair.accountField, .text (lit "bob"))]
    (∃ r : Rejection,
      KeyPair.decode members (lit "alice") (some (lit "k.json")) = .error r ∧ r.place = none ∧
        r.message =
          lit "keystore: parsed account_id 'bob' does not match with accountID 'alice'") ∧
      ¬ ∀ members expected place, place ≠ [] →
          KeyPair.Annotates place ((KeyPair.decode members expected none).mapError .rejected)
            ((KeyPair.decode members expected (some place)).mapError .rejected) := by
  have hdecode : ∀ place,
      KeyPair.decode [(KeyPair.accountField, .text (lit "bob"))] (lit "alice") place =
        .error ⟨.otherAccount (.text (lit "bob")) (lit "alice"), none⟩ :=
    fun _ => rfl
  refine ⟨⟨_, hdecode _, rfl, by decide⟩, ?_⟩
  intro hall
  have hannotates := hall [(KeyPair.accountField, .text (lit "bob"))] (lit "alice") (lit "k.json")
    (by decide)
  rw [hdecode, hdecode, mapError_error] at hannotates
  cases hannotates with
  | rejected _ atPlace _ =>
      cases atPlace

end Store

end Keybox

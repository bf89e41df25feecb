import Keybox.Proofs.CommandLine.Phases
import Keybox.Proofs.KeyPair.Loading
import Keybox.Proofs.KeyPair.Messages
import Keybox.Proofs.KeyPair.RoundTrip
import Keybox.Proofs.Log.Clock
import Keybox.Proofs.World.Concealment

/-!
# Rejected files and the private key in them

A credentials file can hold a proper private key and still be rejected, for its account, its public
key, its other slot, or for the way in which the key is written. The payload of that key is looked
for in everything the rejection leaves behind: the message, the lines on the console and in log
files, and what the command line prints.

**Results.** The payload shows up in the message exactly for the records that expose it, and for all
other records it shows up nowhere. So a file gives its private key away exactly when it gets as far
as the reading of its keys and has blanks around the payload; the other way to expose a payload
needs a public key of more code points than can be stored.
-/

namespace Keybox

theorem Rejection.message_lacks_iff
    {secret path : Text}
    (hs : Base58.IsPayload secret)
    (hpath : path.Lacks secret)
    (r : Reason) :
    (ofReason (some path) r).message.Lacks secret ↔ r.message.Lacks secret := by
  rw [message, kind, ofReason]
  dsimp only
  split
  · rw [ErrorKind.describe]
    split
    · constructor
      · intro h hin
        rw [List.append_assoc] at h
        exact h (List.infix_append_of_infix_left hin)
      · intro h
        rw [List.append_assoc]
        exact hs.lacks_append_fence_append (by decide) h hpath
    · exact Iff.rfl
  · exact Iff.rfl

namespace World

/-- The file at a path can be read, and the document in it is an object. -/
def HoldsRecord
    (w : World)
    (path : Text)
    (members : Members) : Prop :=
  ∃ content document,
    (FileAct.read path).run w.tree = (.ok content, w.tree) ∧
      Utf8.decode content = .ok document ∧ Json.read document = .ok (.object members)

/-- A file with a private key of 64 bytes in one of its slots, blanks around the payload allowed.
The payload stands in no other text that a message about the file shows: neither in its path, nor in
the account and the public key of the record, nor in the account that is expected, nor in the time
at the front of a line, where a time stamp has no room for it (`Clock.lacks_stamp`). -/
structure HoldsSecret
    (w : World)
    (path expected : Text)
    (members : Members)
    (slot : Slot)
    (payload : Text)
    (key : Bytes) : Prop where
  record : w.HoldsRecord path members
  slot : members.find? slot.field = some (.text (KeyText.tag ++ payload))
  payload : Text.trim payload = Base58.encode key
  length : key.length = 64
  outside : KeyPair.Outside (Base58.encode key) members expected
  path : path.Lacks (Base58.encode key)
  clock : w.clock.Lacks (Base58.encode key)

/-- Logging only adds to the console. -/
theorem console_prefix_log
    (w : World)
    (r : LogRecord) :
    w.console <+: (w.log r).console := by
  rw [log]
  generalize w.loggers.handlersFor r.name = handlers
  induction handlers generalizing w with
  | nil =>
      exact List.prefix_rfl
  | cons h rest ih =>
      have hfirst : w.console <+: (w.deliver r h).console := by
        cases h with
        | console =>
            rw [deliver]
            split
            · exact List.prefix_append _ _
            · exact List.prefix_rfl
        | file _ _ =>
            simp only [deliver]
            split <;> exact List.prefix_rfl
      exact hfirst.trans (ih (w.deliver r h))

end World

namespace Store

variable
  {w : World}
  {path expected : Text}
  {members : Members}

theorem ofDocument_of_record
    {content : Bytes}
    {document : Text}
    (hdecode : Utf8.decode content = .ok document)
    (hread : Json.read document = .ok (.object members))
    (expected : Text)
    (place : Option Text) :
    KeyPair.ofDocument (.bytes content) expected place =
      (KeyPair.decode members expected place).mapError .rejected := by
  have htext : (Document.bytes content).text? = .ok document := by
    rw [Document.text?, hdecode, mapError_ok]
  exact KeyPair.ofDocument_of_object expected place htext hread

theorem readPair_of_ok
    (hrecord : w.HoldsRecord path members)
    {p : KeyPair}
    (hp : KeyPair.check members expected = .ok p) :
    (readPair path expected).run w =
      (.ok p, w.log ⟨Loggers.canonical loggerName, .debug, loadedNote expected path⟩) := by
  obtain ⟨content, document, hfile, hdecode, hread⟩ := hrecord
  rw [readPair, run_bind_of_ok (Act.run_files_of_ok hfile),
    ofDocument_of_record hdecode hread, KeyPair.decode, hp]
  rfl

/-- The record of what is wrong with a file. -/
def rejectedRecord
    (path : Text)
    (r : Reason) : LogRecord :=
  ⟨Loggers.canonical loggerName, .warning, rejectedNote (Rejection.ofReason (some path) r) path⟩

theorem readPair_of_error
    (hrecord : w.HoldsRecord path members)
    {r : Reason}
    (hr : KeyPair.check members expected = .error r) :
    (readPair path expected).run w =
      (.error (.document (.rejected (Rejection.ofReason (some path) r))),
        w.log (rejectedRecord path r)) := by
  obtain ⟨content, document, hfile, hdecode, hread⟩ := hrecord
  rw [readPair, run_bind_of_ok (Act.run_files_of_ok hfile),
    ofDocument_of_record hdecode hread, KeyPair.decode, hr]
  rfl

theorem load_run
    {store : Store}
    {network : Text}
    (hpath : (store.pathFor network expected).run w = (.ok path, w)) :
    (store.load network expected).run w = (readPair path expected).run w := by
  rw [load, run_bind_of_ok hpath]

variable
  {slot : Slot}
  {payload : Text}
  {key : Bytes}

/-! ## What a rejection leaves behind -/

/-- What is logged about a rejection shows a payload only if its reason does. -/
theorem quietLines_rejectedRecord
    {secret : Text}
    (hs : Base58.IsPayload secret)
    (hpath : path.Lacks secret)
    (hclock : w.clock.Lacks secret)
    {r : Reason}
    (hr : r.message.Lacks secret) :
    ((rejectedRecord path r).line w.clock).QuietLines secret := by
  have hmessage := (Rejection.message_lacks_iff hs hpath r).mpr hr
  have hnote : (rejectedRecord path r).message.Lacks secret := by
    simp only [rejectedRecord, rejectedNote, List.append_assoc]
    exact hs.lacks_opening_append (by decide)
      (hs.lacks_append_fence_append (by decide) hpath hmessage)
  have hname : Text.Lacks (Loggers.canonical loggerName) secret :=
    hs.lacks_of_isShort (by decide)
  exact World.quietLines_line hs hclock hname hnote

/-- A rejected file is rejected for a reason that a check gives, and the payload is in the message
exactly when the record exposes it. -/
theorem readPair_shows_iff
    (h : w.HoldsSecret path expected members slot payload key)
    {failure : Failure}
    {w' : World}
    (hrun : (readPair path expected).run w = (.error failure, w')) :
    (failure.message.Lacks (Base58.encode key) ↔
        ¬ KeyPair.Exposes (Base58.encode key) members expected slot payload) ∧
      (¬ KeyPair.Exposes (Base58.encode key) members expected slot payload →
        w.Conceals (Base58.encode key) w') := by
  have hs : Base58.IsPayload (Base58.encode key) := Base58.isPayload_encode h.length.ge
  cases hcheck : KeyPair.check members expected with
  | ok p =>
      rw [readPair_of_ok h.record hcheck] at hrun
      cases hrun
  | error r =>
      have hreason := KeyPair.check_message_lacks_iff h.slot h.length h.payload h.outside hcheck
      rw [readPair_of_error h.record hcheck] at hrun
      cases hrun
      refine ⟨(Rejection.message_lacks_iff hs h.path r).trans hreason, ?_⟩
      intro hnot
      exact World.conceals_log hs w
        (quietLines_rejectedRecord hs h.path h.clock (hreason.mpr hnot))

end Store

namespace CommandLine

open Store

variable
  {start w w' : World}
  {words : List Text}
  {i : Invocation}
  {source : RandomSource}
  {settings : Settings}

theorem run_display_of_ok
    (source : RandomSource)
    (hwords : Invocation.ofWords words = .ok i)
    (hcommand : i.command = .display)
    (hsettings : (settingsOf i).run start = (.ok settings, start))
    (hlog : (openLog settings).run start = (.ok (), w))
    {p : KeyPair}
    (hload : (settings.store.load (networkOf i settings) i.account).run w = (.ok p, w')) :
    (run words source).run start =
      (.ok 0, { w' with output := w'.output ++ printed (displayedLines p) }) := by
  rw [run_eq hwords hsettings hlog, carryOut, hcommand]
  dsimp only
  rw [run_bind_of_ok hload, run_printLines]

theorem run_display_of_error
    (hwords : Invocation.ofWords words = .ok i)
    (hcommand : i.command = .display)
    (hsettings : (settingsOf i).run start = (.ok settings, start))
    (hlog : (openLog settings).run start = (.ok (), w))
    {failure : Failure}
    (hreports : reportsInCommand failure.family = true)
    (hload : (settings.store.load (networkOf i settings) i.account).run w = (.error failure, w')) :
    (run words source).run start =
      (.ok 1, { w' with console := w'.console ++ commandErrorLine failure ++ lit "\n" }) := by
  rw [run_eq hwords hsettings hlog, carryOut, hcommand]
  dsimp only
  rw [run_bind_of_error hload]
  exact if_pos hreports

theorem conceals_openLog
    {secret : Text}
    (hs : Base58.IsPayload secret)
    {r : Except Failure Unit}
    (hlog : (openLog settings).run start = (r, w)) :
    start.Conceals secret w := by
  rw [openLog] at hlog
  split at hlog
  · cases hlog
    exact .refl hs start
  · exact Act.conceals_makeLogger hs hlog

variable
  {path expected payload : Text}
  {members : Members}
  {slot : Slot}
  {key : Bytes}

/-- What a run that fails on a rejected file adds to the console, the line of the failure last. -/
def addedByRejection
    (start w : World)
    (path : Text)
    (r : Reason) : Text :=
  ((w.log (rejectedRecord path r)).console.drop start.console.length) ++
    (commandErrorLine (.document (.rejected (Rejection.ofReason (some path) r))) ++ lit "\n")

/-- Nothing that was on the console is taken away. -/
theorem console_of_rejected
    {secret : Text}
    (hopened : start.Conceals secret w)
    (path : Text)
    (r : Reason) :
    (w.log (rejectedRecord path r)).console ++
        commandErrorLine (.document (.rejected (Rejection.ofReason (some path) r))) ++ lit "\n" =
      start.console ++ addedByRejection start w path r := by
  obtain ⟨opened, -, hopenedConsole⟩ := hopened.console
  obtain ⟨logged, hlogged⟩ := w.console_prefix_log (rejectedRecord path r)
  rw [addedByRejection, ← hlogged, hopenedConsole, List.append_assoc start.console,
    List.drop_left]
  simp only [List.append_assoc]

/-- A run that fails on a rejected file conceals the payload exactly when the reason does. -/
theorem conceals_rejected_iff
    (h : w.HoldsSecret path expected members slot payload key)
    (hopened : start.Conceals (Base58.encode key) w)
    (r : Reason) :
    start.Conceals (Base58.encode key)
        { w.log (rejectedRecord path r) with
          console := (w.log (rejectedRecord path r)).console ++
            commandErrorLine (.document (.rejected (Rejection.ofReason (some path) r))) ++
              lit "\n" } ↔
      r.message.Lacks (Base58.encode key) := by
  have hs : Base58.IsPayload (Base58.encode key) := Base58.isPayload_encode h.length.ge
  have hmessage := Rejection.message_lacks_iff hs h.path r
  constructor
  · intro hconceals hin
    apply hconceals.lacks_of_console (console_of_rejected hopened path r)
    have hshown : Base58.encode key <:+: (Rejection.ofReason (some path) r).message :=
      not_not.mp fun hlacks => hmessage.mp hlacks hin
    exact List.infix_append_of_infix_right (List.infix_append_of_infix_left
      (List.infix_append_of_infix_right hshown))
  · intro hlacks
    have hline : Text.Lacks
        (commandErrorLine (.document (.rejected (Rejection.ofReason (some path) r))))
        (Base58.encode key) :=
      hs.lacks_opening_append (by decide) (hmessage.mpr hlacks)
    have hlogs := World.conceals_log hs w (quietLines_rejectedRecord hs h.path h.clock hlacks)
    have hprints := World.conceals_console hs (w.log (rejectedRecord path r))
      (Text.QuietLines.line hs hline)
    rw [← List.append_assoc] at hprints
    exact (hopened.trans hs hlogs).trans hs hprints

/-- The lines of a run that fails on a rejected file show the payload exactly when the record
exposes it. -/
theorem run_display_shows_iff
    (h : w.HoldsSecret path expected members slot payload key)
    (hwords : Invocation.ofWords words = .ok i)
    (hcommand : i.command = .display)
    (haccount : i.account = expected)
    (hsettings : (settingsOf i).run start = (.ok settings, start))
    (hlog : (openLog settings).run start = (.ok (), w))
    (hpath : (settings.store.pathFor (networkOf i settings) expected).run w = (.ok path, w))
    {result : Except Failure Nat}
    (hrun : (run words source).run start = (result, w'))
    (hresult : result ≠ .ok 0) :
    result = .ok 1 ∧
      (start.Conceals (Base58.encode key) w' ↔
        ¬ KeyPair.Exposes (Base58.encode key) members expected slot payload) := by
  have hs : Base58.IsPayload (Base58.encode key) := Base58.isPayload_encode h.length.ge
  have hopened := conceals_openLog hs hlog
  subst haccount
  cases hcheck : KeyPair.check members i.account with
  | ok p =>
      have hload := (load_run hpath).trans (readPair_of_ok h.record hcheck)
      rw [run_display_of_ok source hwords hcommand hsettings hlog hload] at hrun
      cases hrun
      exact absurd rfl hresult
  | error r =>
      have hload := (load_run hpath).trans (readPair_of_error h.record hcheck)
      have hreason := KeyPair.check_message_lacks_iff h.slot h.length h.payload h.outside hcheck
      rw [run_display_of_error hwords hcommand hsettings hlog rfl hload] at hrun
      cases hrun
      exact ⟨rfl, (conceals_rejected_iff h hopened r).trans hreason⟩

end CommandLine

/-! ## Two files -/

/-- A world with the file of one pair in its working directory and nothing else. -/
def World.withFile (p : KeyPair) : World :=
  { World.initial [] [] (Clock.stamp 0) with
    tree := ⟨[([lit "k.json"], .file 0 Store.fileMode (Store.contentOf p))], [], 1⟩ }

theorem World.holdsRecord_withFile
    {p : KeyPair}
    (hp : p.Unpaired) :
    (withFile p).HoldsRecord (lit "k.json") p.record.members :=
  ⟨Store.contentOf p, p.json, rfl, Record.decode_encode_write p.record, KeyPair.read_json hp⟩

namespace Store

/-- A private key of zeros. -/
def zeroKey : Bytes :=
  List.replicate 64 0

theorem encode_zeros
    (n : Nat) :
    Base58.encode (List.replicate n 0) = List.replicate n Base58.zeroDigit := by
  have htake : (List.replicate n (0 : UInt8)).takeWhile (· = 0) = List.replicate n 0 := by
    simp
  have hdrop : (List.replicate n (0 : UInt8)).dropWhile (· = 0) = [] := by
    simp
  rw [Base58.encode, htake, hdrop]
  simp [Numeral.value, Numeral.digits, Numeral.digitsOnto]

/-- The pair of an account with a public key of no bytes, and with further code points after the
private key of zeros. -/
def zeroPair (account further : Text) : KeyPair where
  account := account
  publicKey := KeyText.tag
  privateKey := KeyText.tag ++ (Base58.encode zeroKey ++ further)
  secretKey := []
  rawPublic := []
  rawPrivate := zeroKey

theorem members_zeroPair
    (account further : Text) :
    (zeroPair account further).record.members =
      [(KeyPair.accountField, .text account),
        (KeyPair.publicField, .text KeyText.tag),
        (Slot.privateKey.field, .text (KeyText.tag ++ (Base58.encode zeroKey ++ further)))] := by
  have hprivate : KeyText.tag ++ (Base58.encode zeroKey ++ further) ≠ [] :=
    KeyPair.tag_append_ne_nil _
  simp [KeyPair.record, KeyPair.slotMembers, KeyPair.slot, zeroPair, Record.members, hprivate]

theorem find?_zeroPair
    (account further : Text) :
    (zeroPair account further).record.members.find? KeyPair.accountField = some (.text account) ∧
      (zeroPair account further).record.members.find? KeyPair.publicField =
        some (.text KeyText.tag) ∧
      (zeroPair account further).record.members.find? Slot.privateKey.field =
        some (.text (KeyText.tag ++ (Base58.encode zeroKey ++ further))) ∧
      (zeroPair account further).record.members.find? Slot.secretKey.field = none := by
  rw [members_zeroPair]
  exact ⟨rfl, rfl, rfl, rfl⟩

theorem holdsSecret_zeroPair
    (account further : Text)
    (haccount : account.Unpaired)
    (hshort : account.length < 64)
    (hfurther : Text.Unpaired (KeyText.tag ++ (Base58.encode zeroKey ++ further)))
    (htrim : Text.trim (Base58.encode zeroKey ++ further) = Base58.encode zeroKey) :
    (World.withFile (zeroPair account further)).HoldsSecret (lit "k.json") (lit "alice")
      (zeroPair account further).record.members .privateKey (Base58.encode zeroKey ++ further)
      zeroKey := by
  have hs : Base58.IsPayload (Base58.encode zeroKey) := Base58.isPayload_encode (by decide)
  obtain ⟨hname, hpublic, hprivate, -⟩ := find?_zeroPair account further
  have hunpaired : (zeroPair account further).Unpaired :=
    ⟨haccount, (by decide : Text.Unpaired KeyText.tag), hfurther, (by decide : Text.Unpaired [])⟩
  have hclock : (Clock.stamp 0).Lacks (Base58.encode zeroKey) :=
    Clock.lacks_stamp hs (by decide)
  refine ⟨World.holdsRecord_withFile hunpaired, hprivate, htrim, rfl,
    ⟨hs.lacks_of_isShort (by decide), ?_, ?_⟩, hs.lacks_of_isShort (by decide), hclock⟩
  · intro v hv
    rw [hname] at hv
    cases hv
    exact hs.lacks_of_length hshort
  · intro v hv
    rw [hpublic] at hv
    cases hv
    exact hs.lacks_of_isShort (l := KeyText.tag) (by decide)

theorem encode_zeroKey :
    Base58.encode zeroKey = List.replicate 64 Base58.zeroDigit :=
  encode_zeros 64

end Store

end Keybox
import Keybox.Proofs.FileTree.Written
import Keybox.Proofs.Store.FailedWrite
import Keybox.Proofs.Store.Rejection

/-!
# What a written file holds

A write that is done leaves a file for its owner alone with the text of the pair, and reading the
path has the outcome that checking the pair's record has.

**Results.** For plain writing this holds of every path in every tree. For atomic writing it holds
of every path that keeps its way; a path that goes through the link which its last name replaces
cannot be read afterwards.
-/

namespace Keybox

namespace KeyPair

/-- A pair whose texts and raw keys are those of a seed, with one slot in use. -/
def Consistent
    (p : KeyPair) : Prop :=
  ∃ slot seed, p = ofSeedIn slot seed p.account

end KeyPair

namespace Store

variable
  {w w' : World}
  {t t' : FileTree}
  {p : KeyPair}
  {path expected : Text}
  {atomic : Bool}

/-! ## Writing -/

/-- A write to a file that is done has put the pair's text at the place that its way takes. -/
theorem writeFile_eq_ok
    (hwf : t.WellFormed)
    (h : (writeFile path atomic p).run t = (.ok (), t')) :
    FileFault.checkPath path = .ok () ∧ ∃ place serial, t.Takes path atomic place ∧
      t.Becomes place (.file serial fileMode (contentOf p)) t' ∧ t'.WellFormed := by
  cases atomic with
  | false =>
      have hrun : (FileAct.writePlain path fileMode fileMode (contentOf p)).run t =
          (.ok (), t') := h
      rcases FileAct.run_writePlain_error_or t path fileMode fileMode (contentOf p) with
        ⟨_, herror⟩ | ⟨hcheck, place, hopens⟩
      · cases hrun.symm.trans herror
      · obtain ⟨serial, _, hok, hb, hwf'⟩ :=
          FileAct.run_writePlain hwf hcheck hopens fileMode fileMode (contentOf p)
        obtain ⟨-, rfl⟩ := Prod.mk.inj (hrun.symm.trans hok)
        exact ⟨hcheck, place, serial, .plain hopens, hb, hwf'⟩
  | true =>
      have hrun : (FileAct.writeAtomic path (contentOf p)).run t = (.ok (), t') := h
      rcases FileAct.run_writeAtomic_error_or hwf path (contentOf p) with
        ⟨_, _, herror, -⟩ | ⟨hcheck, ⟨directory, name, hadmits⟩, s, t₁, hmake⟩
      · cases hrun.symm.trans herror
      · obtain ⟨_, hok, hb, hwf'⟩ := FileAct.run_writeAtomic hwf hcheck hadmits hmake (contentOf p)
        obtain ⟨-, rfl⟩ := Prod.mk.inj (hrun.symm.trans hok)
        exact ⟨hcheck, _, _, .atomic hadmits, hb, hwf'⟩

/-- Writing a pair is done exactly when writing its file is, gives the path, and leaves the tree
that this leaves, if only consoles get the store's records. -/
theorem run_writePair
    (hconsole : ∀ handler ∈ w.loggers.handlersFor (Loggers.canonical loggerName),
      handler = .console)
    (p : KeyPair)
    (path : Text)
    (atomic : Bool) :
    ((writePair p path atomic).run w).1 =
        (((writeFile path atomic p).run w.tree).1.map fun _ => path).mapError .file ∧
      ((writePair p path atomic).run w).2.tree = ((writeFile path atomic p).run w.tree).2 := by
  rcases hfile : (writeFile path atomic p).run w.tree with ⟨r, t⟩
  cases r with
  | ok =>
      rw [writePair_of_ok hfile]
      exact ⟨rfl, (World.log_of_console { w with tree := t } hconsole).1⟩
  | error fault =>
      rw [writePair, run_bind_of_error (Act.run_files_of_error hfile)]
      exact ⟨rfl, rfl⟩

theorem writePair_eq_ok
    (hconsole : ∀ handler ∈ w.loggers.handlersFor (Loggers.canonical loggerName),
      handler = .console)
    {r : Text}
    (h : (writePair p path atomic).run w = (.ok r, w')) :
    r = path ∧ (writeFile path atomic p).run w.tree = (.ok (), w'.tree) := by
  obtain ⟨hresult, htree⟩ := run_writePair hconsole p path atomic
  rw [h] at hresult htree
  rcases hfile : (writeFile path atomic p).run w.tree with ⟨result, t⟩
  rw [hfile] at hresult htree
  cases result with
  | ok =>
      obtain rfl : w'.tree = t := htree
      exact ⟨Except.ok.inj hresult, rfl⟩
  | error fault =>
      cases hresult

/-! ## Reading -/

/-- Reading a file with a record has the outcome of checking the record. -/
theorem readPair_of_holdsRecord
    {members : Members}
    (h : w.HoldsRecord path members)
    (expected : Text) :
    ((readPair path expected).run w).1 =
      (KeyPair.decode members expected (some path)).mapError fun r => .document (.rejected r) := by
  cases hcheck : KeyPair.check members expected with
  | ok q =>
      rw [readPair_of_ok h hcheck, KeyPair.decode, hcheck]
      rfl
  | error r =>
      rw [readPair_of_error h hcheck, KeyPair.decode, hcheck]
      rfl

theorem holdsRecord_of_resolve
    (hp : p.Unpaired)
    (hcheck : FileFault.checkPath path = .ok ())
    {place : Place}
    {serial : Nat}
    (h : w.tree.resolve .reading path = .ok (.entry place (.file serial fileMode (contentOf p)))) :
    w.HoldsRecord path p.record.members :=
  ⟨contentOf p, p.json, FileAct.run_read_file hcheck h (by decide),
    Record.decode_encode_write p.record, KeyPair.read_json hp⟩

/-- A path that leads nowhere is not read. -/
theorem run_readPair_of_resolve_error
    (hcheck : FileFault.checkPath path = .ok ())
    {errno : Errno}
    (h : w.tree.resolve .reading path = .error errno)
    (expected : Text) :
    (readPair path expected).run w = (.error (.file (.system errno path none)), w) := by
  have hcontent : w.tree.contentAt path = .error errno := by
    rw [FileTree.contentAt, h]
    rfl
  rw [readPair, run_bind_of_error
    (Act.run_files_of_error (FileAct.run_read_of_error hcheck hcontent))]

theorem readPair_of_resolve_error
    (hcheck : FileFault.checkPath path = .ok ())
    {errno : Errno}
    (h : w.tree.resolve .reading path = .error errno)
    (expected : Text) :
    ((readPair path expected).run w).1 = .error (.file (.system errno path none)) := by
  rw [run_readPair_of_resolve_error hcheck h]

/-- **A written pair is read back.** A write that is done gives its path. The path then leads to a
file for its owner alone with the text of the pair, and reading it has the outcome of checking the
pair's record, whatever account is expected, so a consistent pair is read back as it is. A path
that does not keep its way under an atomic write goes through the link that had its last name. It
leads to no file then, and reading it fails. -/
theorem written_pair_is_read
    {r : Text}
    (hwf : w.tree.WellFormed)
    (hp : p.Unpaired)
    (hconsole : ∀ handler ∈ w.loggers.handlersFor (Loggers.canonical loggerName),
      handler = .console)
    (h : (writePair p path atomic).run w = (.ok r, w')) :
    r = path ∧
      ((atomic = true → w.tree.KeepsWay path) →
        (∃ place serial, w'.tree.resolve .reading path =
          .ok (.entry place (.file serial 0o600 (Utf8.encode p.json)))) ∧
        (∀ expected, ((readPair path expected).run w').1 =
          (KeyPair.decode p.record.members expected (some path)).mapError
            fun reason => .document (.rejected reason)) ∧
        (p.Consistent → ((readPair path p.account).run w').1 = .ok p)) ∧
      (atomic = true → ¬ w.tree.KeepsWay path →
        (∃ directory name target, w.tree.parentOf path = .ok (directory, .name name false) ∧
          w.tree.get? (directory ++ [name]) = some (.link target)) ∧
        w'.tree.resolve .reading path = .error .notDirectory ∧
          ∀ expected, ((readPair path expected).run w').1 =
            .error (.file (.system .notDirectory path none))) := by
  obtain ⟨hr, hfile⟩ := writePair_eq_ok hconsole h
  obtain ⟨hcheck, place, serial, htakes, hb, -⟩ := writeFile_eq_ok hwf hfile
  refine ⟨hr, ?_, ?_⟩
  · intro hkeeps
    have hresolve := htakes.resolve_becomes hwf hkeeps hb
    have hread := readPair_of_holdsRecord (holdsRecord_of_resolve hp hcheck hresolve)
    refine ⟨⟨place, serial, hresolve⟩, hread, ?_⟩
    rintro ⟨slot, seed, hconsistent⟩
    have hdecode := KeyPair.decode_record_ofSeedIn slot seed p.account (some path)
    rw [← hconsistent] at hdecode
    rw [hread, hdecode]
    rfl
  · intro hatomic hkeeps
    subst hatomic
    cases htakes with
    | atomic hadmits =>
        have hresolve := hadmits.resolve_of_not_keepsWay hkeeps hb
        obtain ⟨target, htarget⟩ := hadmits.exists_link hkeeps
        exact ⟨⟨_, _, target, hadmits.parentOf, htarget⟩, hresolve,
          readPair_of_resolve_error hcheck hresolve⟩

/-! ## A link to its own directory -/

/-- A world whose only entry is a link to the directory that it is in. -/
def selfLinked : World :=
  { emptyWorld with tree := emptyWorld.tree.set [lit "l"] (.link (lit ".")) }

theorem wellFormed_selfLinked :
    selfLinked.tree.WellFormed := by
  have hb : emptyWorld.tree.Becomes ([] ++ [lit "l"]) (.link (lit ".")) selfLinked.tree :=
    FileTree.becomes_set (by simp) _
  refine site_emptyWorld.wellFormed.becomes hb (FileTree.isDir_root _) ?_ (by rintro _ _ _ ⟨⟩)
  exact fun hdir => absurd hdir (FileTree.not_isDir_of_none rfl)

/-- A pair that is written through the link is read back. -/
theorem written_through_link_is_read :
    ∃ w', (writePair alicePair (lit "l/alice.json") true).run selfLinked =
        (.ok (lit "l/alice.json"), w') ∧
      ((readPair (lit "l/alice.json") (lit "alice")).run w').1 = .ok alicePair := by
  have hparent : selfLinked.tree.parentOf (lit "l/alice.json") =
      .ok ([], .name (lit "alice.json") false) := by
    with_unfolding_all rfl
  have hkeeps : selfLinked.tree.KeepsWay (lit "l/alice.json") := by
    intro directory name slash h
    rw [hparent] at h
    cases h
    with_unfolding_all rfl
  have hunpaired : alicePair.Unpaired := (accepted_ofSeedIn _ _ _).unpaired (by decide)
  have hdone : ((writePair alicePair (lit "l/alice.json") true).run selfLinked).1 =
      .ok (lit "l/alice.json") := by
    with_unfolding_all rfl
  obtain ⟨-, hread, -⟩ := written_pair_is_read wellFormed_selfLinked hunpaired
    site_emptyWorld.console (Prod.ext hdone rfl)
  exact ⟨_, Prod.ext hdone rfl, (hread fun _ => hkeeps).2.2 ⟨.privateKey, Seed.zero, rfl⟩⟩

/-- An atomic write that replaces the link its own path goes through is done, and the path leads
to no file. -/
theorem written_over_link_is_not_read :
    selfLinked.tree.WellFormed ∧
    ∃ w', (writePair alicePair (lit "l/l") true).run selfLinked = (.ok (lit "l/l"), w') ∧
      w'.tree.resolve .reading (lit "l/l") = .error .notDirectory ∧
        ((readPair (lit "l/l") (lit "alice")).run w').1 =
          .error (.file (.system .notDirectory (lit "l/l") none)) := by
  have hdone : ((writePair alicePair (lit "l/l") true).run selfLinked).1 = .ok (lit "l/l") := by
    with_unfolding_all rfl
  refine ⟨wellFormed_selfLinked, _, Prod.ext hdone rfl, ?_, ?_⟩
  · with_unfolding_all rfl
  · with_unfolding_all rfl

end Store

end Keybox

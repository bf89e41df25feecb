import Keybox.Proofs.FileTree.Faults
import Keybox.Proofs.Store.WrittenFile
import Keybox.Proofs.World.Containment

/-!
# What the store shows of a private key

The store logs accounts and paths as they are, and the paths are made of the base directory, the
network and the account. Its faults show paths between quotes, those of a write also the path of
the temporary file, which can start with the working directory.

**Results.** Whether a write succeeds or fails, what it logs shows no payload that the base
directory, the network and the account lack, and the files hold none but the pair's own at its
place. A property that goes from parts to paths is one of all paths that a failed write names. What
is logged about a file that is accepted shows no such payload either.
-/

namespace Keybox

theorem Seed.isPayload_privateKey
    (seed : Seed) :
    Base58.IsPayload (Base58.encode seed.privateKey) := by
  apply Base58.isPayload_encode
  simp [Seed.privateKey, seed.length_bytes]

theorem KeyText.length_encode_lt
    {key : Bytes}
    (hkey : key.length = 32) :
    (KeyText.encode key).length < 64 := by
  have hpayload := Base58.length_encode_le key
  rw [hkey] at hpayload
  have htag : KeyText.tag.length = 8 := by decide
  rw [KeyText.encode, List.length_append, htag]
  omega

/-- The paths that a failure to write names have a property. -/
def Failure.Names
    (Q : Text → Prop)
    (failure : Failure) : Prop :=
  failure = .homeless ∨ ∃ fault, failure = .file fault ∧ fault.Names Q

namespace Store

/-! ## Paths -/

section

variable
  {Q : Text → Prop}
  {w w' : World}
  {s : Store}
  {p : KeyPair}
  {base network account path : Text}
  {failure : Failure}

theorem inherited_pathIn
    (hQ : Path.Inherited Q)
    (hbase : Q base)
    (hnetwork : Q network)
    (haccount : Q account) :
    Q (pathIn base network account) := by
  have hcredentials : Q credentialsDir := hQ.plain (by decide +kernel)
  have hname : Q (account ++ chr '.' :: lit "json") :=
    hQ.point haccount (hQ.plain (by decide +kernel))
  exact hQ.join (hQ.join (hQ.join hbase hcredentials) hnetwork) hname

theorem inherited_homeDir?
    (hQ : Path.Inherited Q)
    {home dir : Text}
    (hhome : Q home)
    (h : homeDir? home = some dir) :
    Q dir := by
  have hname : Q (Text.dropEndWhile (· = Path.slash) home) :=
    hQ.part (Text.isInfix_dropEndWhile _ _) hhome
  rw [homeDir?] at h
  generalize Text.dropEndWhile (· = Path.slash) home = name at h hname
  have hfound : Q (if name = [] then [Path.slash] else name) := by
    split
    · exact hQ.plain (by decide +kernel)
    · exact hname
  generalize (if name = [] then [Path.slash] else name) = found at h hfound
  split at h
  · cases h
  · obtain rfl := Option.some.inj h
    exact hQ.tidy hfound

theorem inherited_base
    (hQ : Path.Inherited Q)
    (hbase : Q (s.baseDir.getD w.home))
    {dir : Text}
    (h : s.base.run w = (.ok dir, w')) :
    Q dir := by
  rw [Store.base] at h
  cases hdir : s.baseDir with
  | some given =>
      rw [hdir] at h hbase
      cases h
      exact hbase
  | none =>
      rw [hdir] at h hbase
      dsimp only at h
      rw [homeDir, run_bind_of_ok (run_get w)] at h
      split at h
      · next hhome =>
        cases h
        exact inherited_homeDir? hQ hbase hhome
      · cases h

theorem inherited_pathFor
    (hQ : Path.Inherited Q)
    (hbase : Q (s.baseDir.getD w.home))
    (hnetwork : Q network)
    (haccount : Q account)
    (h : (s.pathFor network account).run w = (.ok path, w')) :
    Q path := by
  rw [pathFor, run_bind_eq_ok_iff] at h
  obtain ⟨dir, w₁, hdir, hpath⟩ := h
  cases hpath
  exact inherited_pathIn hQ (inherited_base hQ hbase hdir) hnetwork haccount

/-- A path is not found only for want of a home directory. -/
theorem eq_homeless_of_pathFor
    (h : (s.pathFor network account).run w = (.error failure, w')) :
    failure = .homeless := by
  have hbase : FailsWith (fun _ => True) (· = Failure.homeless) s.base := by
    rw [Store.base]
    split
    · exact failsWith_pure _
    · refine failsWith_get.bind preserves_get fun w => ?_
      split
      · exact failsWith_pure _
      · exact failsWith_throw rfl
  exact hbase.bind (fun _ _ => trivial) (fun _ => failsWith_pure _) w trivial failure w' h

/-! ## Failed writes -/

theorem failsWith_writeFile
    (hQ : Path.Inherited Q)
    (hpath : Q path)
    (atomic : Bool)
    (p : KeyPair) :
    FailsWith (fun t => Q t.workingPath ∧ t.entries.length < FileAct.scratchLimit)
      (FileFault.Names Q) (writeFile path atomic p) := by
  cases atomic with
  | false =>
      intro t _
      exact FileAct.failsWith_writePlain hpath fileMode fileMode (contentOf p) t trivial
  | true =>
      exact FileAct.failsWith_writeAtomic hQ hpath (contentOf p)

theorem names_of_writePair_error
    (hQ : Path.Inherited Q)
    (hpath : Q path)
    (hworking : Q w.tree.workingPath)
    (hsize : w.tree.entries.length < FileAct.scratchLimit)
    {atomic : Bool}
    (h : (writePair p path atomic).run w = (.error failure, w')) :
    failure.Names Q := by
  rcases hfile : (writeFile path atomic p).run w.tree with ⟨result, t⟩
  cases result with
  | ok =>
      rw [writePair_of_ok hfile] at h
      cases h
  | error fault =>
      rw [writePair, run_bind_of_error (Act.run_files_of_error hfile)] at h
      cases h
      exact Or.inr ⟨fault, rfl,
        failsWith_writeFile hQ hpath atomic p w.tree ⟨hworking, hsize⟩ fault _ hfile⟩

/-- Making a tree ready adds a limited number of directories and stays in the working directory. -/
theorem readyTree_bounds
    (hwf : w.tree.WellFormed)
    (s : Store)
    (path : Text) :
    (s.readyTree path w.tree).workingPath = w.tree.workingPath ∧
      (s.readyTree path w.tree).entries.length ≤
        w.tree.entries.length + (FileAct.missingLimit + 1) := by
  rw [readyTree]
  split
  · obtain ⟨hgrows, -⟩ := FileAct.growsOn_ensureDirectories (Path.dirName path) dirMode w.tree hwf
    refine ⟨?_, FileAct.addsAtMost_ensureDirectories _ _ w.tree⟩
    rw [FileTree.workingPath, FileTree.workingPath, hgrows.workingDir]
  · exact ⟨rfl, Nat.le_add_right _ _⟩

/-- The paths that a failed write names come from the base directory, the network, the account and
the working directory. -/
theorem names_of_write_error
    (hQ : Path.Inherited Q)
    (hwf : w.tree.WellFormed)
    (hbase : Q (s.baseDir.getD w.home))
    (hnetwork : Q network)
    (haccount : Q p.account)
    (hworking : Q w.tree.workingPath)
    (hsize : w.tree.entries.length + (FileAct.missingLimit + 1) < FileAct.scratchLimit)
    (h : (s.write p network).run w = (.error failure, w')) :
    failure.Names Q := by
  rcases s.write_cases p network w with
    ⟨_, hpath, hrun⟩ | ⟨path, hpath, ⟨fault, hdirs, hrun⟩ | hrun⟩
  · cases hrun.symm.trans h
    exact Or.inl (eq_homeless_of_pathFor hpath)
  · cases hrun.symm.trans h
    have hdirName := hQ.dirName (inherited_pathFor hQ hbase hnetwork haccount hpath)
    exact Or.inr ⟨fault, rfl, FileAct.failsWith_ensureDirectories hQ hdirName dirMode w.tree trivial
      fault _ (Prod.ext hdirs rfl)⟩
  · obtain ⟨hplace, hgrown⟩ := readyTree_bounds hwf s path
    rw [hrun] at h
    refine names_of_writePair_error hQ (inherited_pathFor hQ hbase hnetwork haccount hpath) ?_
      (hgrown.trans_lt hsize) h
    exact hplace.symm ▸ hworking

end

/-! ## What is logged and written -/

variable
  {secret : Text}
  {w w' : World}
  {s : Store}
  {p : KeyPair}
  {network path expected : Text}

theorem conceals_note
    (hs : Base58.IsPayload secret)
    (hclock : w.clock.Lacks secret)
    (level : Level)
    {message : Text}
    (hmessage : message.Lacks secret) :
    w.Conceals secret (w.log ⟨Loggers.canonical loggerName, level, message⟩) := by
  have hname : Text.Lacks (Loggers.canonical loggerName) secret := hs.lacks_of_isShort (by decide)
  exact World.conceals_log hs w (World.quietLines_line hs hclock hname hmessage)

/-- What writing a pair to a path puts into a file: the pair's text, at the place that the path's
way takes. -/
def PutsAt
    (p : KeyPair)
    (path : Text)
    (atomic : Bool)
    (t : FileTree)
    (place : Place)
    (content : Bytes) : Prop :=
  content = contentOf p ∧ t.Takes path atomic place

/-- Writing a pair to a path shows nothing but what it puts into the file. -/
theorem concealsExcept_writePair
    (hs : Base58.IsPayload secret)
    (hclock : w.clock.Lacks secret)
    (hwf : w.tree.WellFormed)
    (haccount : p.account.Lacks secret)
    (hpath : path.Lacks secret)
    {atomic : Bool}
    {result : Except Failure Text}
    (h : (writePair p path atomic).run w = (result, w')) :
    w.ConcealsExcept secret (PutsAt p path atomic w.tree) w' := by
  cases result with
  | error failure =>
      obtain ⟨hw', hunchanged⟩ := unchanged_of_writePair_error hwf h
      rw [hw']
      refine (World.conceals_tree hs w fun place serial mode content hfile => ?_).except _
      rwa [hunchanged.get] at hfile
  | ok r =>
      rcases hfile : (writeFile path atomic p).run w.tree with ⟨result, t⟩
      cases result with
      | error fault =>
          rw [writePair, run_bind_of_error (Act.run_files_of_error hfile)] at h
          cases h
      | ok =>
          rw [writePair_of_ok hfile] at h
          cases h
          obtain ⟨-, place, serial, htakes, hb, -⟩ := writeFile_eq_ok hwf hfile
          have hnote : (wroteNote p path).Lacks secret := by
            simp only [wroteNote, List.append_assoc]
            exact hs.lacks_opening_append (by decide)
              (hs.lacks_append_fence_append (by decide) haccount hpath)
          have hlog := conceals_note (w := { w with tree := t }) hs hclock .info hnote
          exact (World.concealsExcept_becomes hs w hb ⟨rfl, htakes⟩).trans hs (hlog.except _)

/-- What writing a pair into a store puts into a file. -/
def StoresAt
    (s : Store)
    (p : KeyPair)
    (network : Text)
    (w : World)
    (place : Place)
    (content : Bytes) : Prop :=
  ∃ path, (s.pathFor network p.account).run w = (.ok path, w) ∧
    PutsAt p path s.atomicWrite (s.readyTree path w.tree) place content

theorem conceals_readyTree
    (hs : Base58.IsPayload secret)
    (hwf : w.tree.WellFormed)
    (s : Store)
    (path : Text) :
    w.Conceals secret { w with tree := s.readyTree path w.tree } := by
  rw [readyTree]
  split
  · obtain ⟨hgrows, -⟩ := FileAct.growsOn_ensureDirectories (Path.dirName path) dirMode w.tree hwf
    exact World.conceals_tree hs w fun place serial mode content hfile => hgrows.get?_file hfile
  · exact .refl hs w

/-- Writing a pair into a store shows nothing but what it puts into the file. -/
theorem concealsExcept_write
    (hs : Base58.IsPayload secret)
    (hclock : w.clock.Lacks secret)
    (hwf : w.tree.WellFormed)
    (hbase : (s.baseDir.getD w.home).Lacks secret)
    (hnetwork : network.Lacks secret)
    (haccount : p.account.Lacks secret)
    {result : Except Failure Text}
    (h : (s.write p network).run w = (result, w')) :
    w.ConcealsExcept secret (s.StoresAt p network w) w' := by
  rcases s.write_cases p network w with
    ⟨_, hpath, hrun⟩ | ⟨path, hpath, ⟨fault, hdirs, hrun⟩ | hrun⟩
  · cases hrun.symm.trans h
    exact (World.Conceals.refl hs w).except _
  · cases hrun.symm.trans h
    exact (conceals_readyTree hs hwf s path).except _
  · rw [hrun] at h
    have hlacks := inherited_pathFor (Path.inherited_lacks hs) hbase hnetwork haccount hpath
    have hwrites := concealsExcept_writePair (w := { w with tree := s.readyTree path w.tree }) hs
      hclock (wellFormed_readyTree hwf s path) haccount hlacks h
    exact ((conceals_readyTree hs hwf s path).except _).trans hs
      (hwrites.mono fun place content hputs => ⟨path, hpath, hputs⟩)

/-! ## What is logged about files that are read -/

/-- When a file is accepted, its path and the account are logged, and the pair is that account's
with a short public key. -/
theorem conceals_readPair_of_ok
    (hs : Base58.IsPayload secret)
    (hclock : w.clock.Lacks secret)
    (hexpected : expected.Lacks secret)
    (hpath : path.Lacks secret)
    (h : (readPair path expected).run w = (.ok p, w')) :
    w.Conceals secret w' ∧ p.account = expected ∧ p.publicKey.length < 64 := by
  rw [readPair, run_bind_eq_ok_iff] at h
  obtain ⟨content, w₁, hfile, h⟩ := h
  rw [Act.run_files_of_same (FileAct.run_read_tree path w.tree)] at hfile
  obtain ⟨-, rfl⟩ := Prod.mk.inj hfile
  cases hdocument : KeyPair.ofDocument (.bytes content) expected (some path) with
  | error fault =>
      rw [hdocument] at h
      cases fault <;> cases h
  | ok q =>
      rw [hdocument] at h
      cases h
      obtain ⟨members, -, hcheck⟩ := KeyPair.exists_holds_of_ofDocument hdocument
      obtain ⟨seed, slot, -, rfl⟩ := KeyPair.check_eq_ok_iff.mp hcheck
      have hnote : (loadedNote expected path).Lacks secret := by
        simp only [loadedNote, List.append_assoc]
        exact hs.lacks_opening_append (by decide)
          (hs.lacks_append_fence_append (by decide) hexpected hpath)
      exact ⟨conceals_note hs hclock .debug hnote, rfl,
        KeyText.length_encode_lt seed.length_publicKey⟩

/-- A file of the pair itself is accepted, or rejected for its account alone. -/
theorem conceals_readPair_ofSeedIn
    (hs : Base58.IsPayload secret)
    (hclock : w.clock.Lacks secret)
    (hexpected : expected.Lacks secret)
    (hpath : path.Lacks secret)
    {slot : Slot}
    {seed : Seed}
    {account : Text}
    (haccount : account.Lacks secret)
    (hrecord : w.HoldsRecord path (KeyPair.ofSeedIn slot seed account).record.members)
    {result : Except Failure KeyPair}
    (h : (readPair path expected).run w = (result, w')) :
    w.Conceals secret w' := by
  by_cases heq : account = expected
  · subst heq
    have hdecode := KeyPair.decode_record_ofSeedIn slot seed account none
    rw [KeyPair.decode, mapError_eq_ok_iff] at hdecode
    have hrun := readPair_of_ok hrecord hdecode
    rw [h] at hrun
    cases hrun
    exact (conceals_readPair_of_ok hs hclock hexpected hpath h).1
  · have hname : (KeyPair.ofSeedIn slot seed account).record.members.find? KeyPair.accountField =
        some (.text account) := rfl
    have haccountCheck :
        KeyPair.checkAccount (KeyPair.ofSeedIn slot seed account).record.members expected =
          .error (.otherAccount (.text account) expected) := by
      rw [KeyPair.checkAccount, hname]
      exact if_neg heq
    have hcheck : KeyPair.check (KeyPair.ofSeedIn slot seed account).record.members expected =
        .error (.otherAccount (.text account) expected) := by
      rw [KeyPair.check, haccountCheck]
      rfl
    have hreason : (Reason.otherAccount (.text account) expected).message.Lacks secret := by
      simp only [Reason.message, List.append_assoc]
      exact hs.lacks_opening_append (by decide)
        (hs.lacks_append_fence_append (by decide) haccount
          (hs.lacks_append_closing (by decide) hexpected))
    have hrun := readPair_of_error hrecord hcheck
    rw [h] at hrun
    cases hrun
    exact World.conceals_log hs w (quietLines_rejectedRecord hs hpath hclock hreason)

end Store

/-- A pair is shown with its account and its public key. -/
theorem KeyPair.shown_lacks
    {secret : Text}
    (hs : Base58.IsPayload secret)
    {p : KeyPair}
    (haccount : p.account.Lacks secret)
    (hpublic : p.publicKey.length < 64) :
    p.shown.Lacks secret := by
  simp only [shown, List.append_assoc]
  exact hs.lacks_opening_append (by decide)
    (hs.lacks_append_fence_append (by decide) haccount
      (hs.lacks_append_closing (by decide) (hs.lacks_of_length hpublic)))

end Keybox

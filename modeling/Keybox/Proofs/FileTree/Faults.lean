import Keybox.Failure
import Keybox.Proofs.FileTree.Growth
import Keybox.Proofs.FileTree.Scratch
import Keybox.Proofs.Path.Parts

/-!
# What faults name

A fault of the file system names the path it is about, and its message shows that path between
quotes. An operation on one path names that path. Making the directories above a path names
beginnings of it, and an atomic write names the temporary file too, which lies beside the path and
has the number of the first free name.

**Results.** When making directories or writing a file fails, the paths that are named have every
property that goes from parts to paths, if the path itself and the working directory have it and the
number of the temporary file is not beyond all bounds. It is at most the number of entries, of which
making directories adds a limited number.
-/

namespace Keybox

namespace FileFault

/-- The paths that a fault is about have a property. -/
def Names
    (Q : Text → Prop) : FileFault → Prop
  | system _ path second => Q path ∧ ∀ other, second = some other → Q other
  | nullInPath => True
  | unencodable cause => ∃ path, Q path ∧ Text.notFileName? 0 path = some cause
  | tooManyMissing => True

variable
  {Q : Text → Prop}
  {path : Text}
  {fault : FileFault}

/-- A fault about one path. -/
theorem names_system
    (hpath : Q path)
    (errno : Errno) :
    (system errno path none).Names Q := by
  refine ⟨hpath, fun other hother => ?_⟩
  cases hother

theorem Names.mono
    {Q' : Text → Prop}
    (h : fault.Names Q)
    (hQ : ∀ t, Q t → Q' t) :
    fault.Names Q' := by
  cases fault with
  | system errno path second =>
      exact ⟨hQ path h.1, fun other hother => hQ other (h.2 other hother)⟩
  | nullInPath =>
      trivial
  | unencodable cause =>
      obtain ⟨path, hpath, hcause⟩ := h
      exact ⟨path, hQ path hpath, hcause⟩
  | tooManyMissing =>
      trivial

theorem names_of_checkPath
    (hpath : Q path)
    (h : checkPath path = .error fault) :
    fault.Names Q := by
  rw [checkPath] at h
  split at h
  · next cause hcause =>
    cases h
    exact ⟨path, hpath, hcause⟩
  · split at h
    · cases h
      trivial
    · cases h

/-- Before the path a message has the number and the words of the error. -/
theorem isOpening_before_path
    (errno : Errno) :
    Base58.isOpening
      (lit "[Errno " ++ Text.ofNat errno.code ++ lit "] " ++ errno.words ++ lit ": ") = true := by
  cases errno <;> decide

/-- The message of a fault shows a payload only between the quotes around its paths, or when it is
about code points that no file name has. -/
theorem Names.message_lacks
    {secret : Text}
    (hs : Base58.IsPayload secret)
    (h : fault.Names fun t => t.quoted.Lacks secret)
    (hunencodable : ∀ cause, fault = .unencodable cause → cause.message.Lacks secret) :
    fault.message.Lacks secret := by
  cases fault with
  | system errno path second =>
      obtain ⟨hpath, hsecond⟩ := h
      have hrest : ∀ rest, Text.Lacks (path.quoted ++ rest) secret →
          Text.Lacks (lit "[Errno " ++ Text.ofNat errno.code ++ lit "] " ++ errno.words ++
            lit ": " ++ path.quoted ++ rest) secret := by
        intro rest h
        rw [List.append_assoc _ path.quoted]
        exact hs.lacks_opening_append (isOpening_before_path errno) h
      cases second with
      | none =>
          apply hrest []
          rw [List.append_nil]
          exact hpath
      | some other =>
          exact hrest _ (hs.lacks_append_fence_append (by decide) hpath (hsecond other rfl))
  | nullInPath =>
      exact hs.lacks_of_isShort (by decide)
  | unencodable cause =>
      exact hunencodable cause rfl
  | tooManyMissing =>
      exact hs.lacks_of_isShort (by decide)

end FileFault

namespace FileTree

/-! ## How many entries there are -/

theorem length_store_le
    (place : Place)
    (entry : Entry)
    (entries : List (Place × Entry)) :
    (store place entry entries).length ≤ entries.length + 1 := by
  induction entries with
  | nil =>
      exact Nat.le_refl 1
  | cons e rest ih =>
      rw [store]
      split
      · exact Nat.le_succ _
      · exact Nat.succ_le_succ ih

end FileTree

namespace FileAct

open FileTree
open FileFault (Names names_system names_of_checkPath)

/-- An action that adds at most so many entries, also when it fails. -/
def AddsAtMost
    (n : Nat)
    (act : FileAct Unit) : Prop :=
  ∀ t : FileTree, (act.run t).2.entries.length ≤ t.entries.length + n

variable
  {act : FileAct Unit}
  {m n : Nat}

theorem addsAtMost_of_same
    (h : ∀ t, (act.run t).2 = t)
    (n : Nat) :
    AddsAtMost n act := by
  intro t
  rw [h]
  exact Nat.le_add_right _ n

theorem AddsAtMost.bind
    {next : Unit → FileAct Unit}
    (h : AddsAtMost m act)
    (hnext : AddsAtMost n (next ())) :
    AddsAtMost (m + n) (act >>= next) := by
  intro t
  have hact := h t
  rw [run_bind]
  rcases hrun : act.run t with ⟨r, t'⟩
  rw [hrun] at hact
  cases r with
  | ok =>
      dsimp only at hact
      exact (hnext t').trans (by omega)
  | error fault =>
      dsimp only at hact ⊢
      omega

theorem addsAtMost_makeDirectory
    (path : Text)
    (mode : Nat) :
    AddsAtMost 1 (makeDirectory path mode) := by
  intro t
  rcases hrun : (makeDirectory path mode).run t with ⟨r, t'⟩
  cases r with
  | ok =>
      rw [makeDirectory, run_onPath_eq_ok_iff] at hrun
      obtain ⟨_, hmake, heq⟩ := map_eq_ok_iff.mp hrun.2
      obtain ⟨-, rfl⟩ := Prod.mk.inj heq
      obtain ⟨directory, name, -, -, -, -, rfl⟩ := makeEntry_eq_ok hmake
      exact length_store_le _ _ _
  | error fault =>
      rw [tree_of_run_ofStep_error hrun]
      exact Nat.le_succ _

theorem addsAtMost_ensureDirectory
    (path : Text)
    (mode : Nat) :
    AddsAtMost 1 (ensureDirectory path mode) := by
  intro t
  rw [snd_run_ensureDirectory]
  exact addsAtMost_makeDirectory path mode t

/-- Each missing directory is one entry. -/
theorem addsAtMost_makeEachWithin
    {make : Text → Nat → FileAct Unit}
    (hmake : ∀ path mode, AddsAtMost 1 (make path mode))
    (missing : Nat)
    (path : Text)
    (mode : Nat) :
    AddsAtMost (missing + 1) (makeEachWithin make missing path mode) := by
  induction missing generalizing path mode with
  | zero =>
      intro t
      rw [makeEachWithin, run_bind_of_ok (run_get t)]
      split
      · exact Nat.le_succ _
      · exact hmake path mode t
  | succ missing ih =>
      intro t
      rw [makeEachWithin, run_bind_of_ok (run_get t)]
      split
      · have habove : AddsAtMost (missing + 1)
            (unlessThere (makeEachWithin make missing (splitLast path).1 plainDirMode)) := by
          intro t
          rw [snd_run_unlessThere]
          exact ih _ _ t
        refine habove.bind ?_ t
        split
        · exact addsAtMost_of_same (fun _ => rfl) 1
        · exact hmake path mode
      · exact (hmake path mode t).trans (by omega)

theorem addsAtMost_ensureDirectories
    (path : Text)
    (mode : Nat) :
    AddsAtMost (missingLimit + 1) (ensureDirectories path mode) :=
  addsAtMost_makeEachWithin addsAtMost_ensureDirectory missingLimit path mode

/-! ## Faults of single operations -/

variable
  {P : FileTree → Prop}
  {Q : Text → Prop}
  {path : Text}

theorem failsWith_onPath
    {α : Type}
    (hpath : Q path)
    (f : FileTree → Except Errno (α × FileTree)) :
    FailsWith P (Names Q) (onPath path f) := by
  rintro t - fault t' h
  cases hcheck : FileFault.checkPath path with
  | error refused =>
      rw [run_onPath_of_refused hcheck] at h
      cases h
      exact names_of_checkPath hpath hcheck
  | ok =>
      cases hf : f t with
      | error errno =>
          rw [run_onPath_of_error hcheck hf] at h
          cases h
          exact names_system hpath errno
      | ok r =>
          have hrun : (onPath path f).run t = (.ok r.1, r.2) :=
            run_onPath_eq_ok_iff.mpr ⟨hcheck, hf⟩
          rw [hrun] at h
          cases h

theorem failsWith_ensureDirectory
    (hpath : Q path)
    (mode : Nat) :
    FailsWith (fun _ => True) (Names Q) (ensureDirectory path mode) := by
  refine (failsWith_onPath hpath _).tryCatch (fun _ _ => trivial) fun fault hfault => ?_
  refine failsWith_get.bind preserves_get fun t => ?_
  split
  · exact failsWith_pure ()
  · exact failsWith_throw hfault

/-- The directories above a path are parts of it. -/
theorem failsWith_makeEachWithin
    {make : Text → Nat → FileAct Unit}
    (hQ : Path.Inherited Q)
    (hmake : ∀ path mode, Q path → FailsWith (fun _ => True) (Names Q) (make path mode))
    (missing : Nat)
    (hpath : Q path)
    (mode : Nat) :
    FailsWith (fun _ => True) (Names Q) (makeEachWithin make missing path mode) := by
  induction missing generalizing path mode with
  | zero =>
      refine failsWith_get.bind preserves_get fun t => ?_
      split
      · exact failsWith_throw trivial
      · exact hmake path mode hpath
  | succ missing ih =>
      refine failsWith_get.bind preserves_get fun t => ?_
      split
      · -- What fails above the path is about a beginning of it.
        have habove := ih (hQ.part (splitLast_begins path).isInfix hpath) plainDirMode
        refine FailsWith.bind ?_ (fun _ _ => trivial) fun _ => ?_
        · refine habove.tryCatch (fun _ _ => trivial) fun fault hfault => ?_
          split
          · exact failsWith_pure ()
          · exact failsWith_throw hfault
        · split
          · exact failsWith_pure ()
          · exact hmake path mode hpath
      · exact hmake path mode hpath

theorem failsWith_ensureDirectories
    (hQ : Path.Inherited Q)
    (hpath : Q path)
    (mode : Nat) :
    FailsWith (fun _ => True) (Names Q) (ensureDirectories path mode) :=
  failsWith_makeEachWithin hQ (fun _ mode h => failsWith_ensureDirectory h mode) missingLimit
    hpath mode

theorem failsWith_ofUpdate
    {R : FileFault → Prop}
    (f : FileTree → FileTree) :
    FailsWith P R (ofUpdate f) := by
  rintro t - fault t' ⟨⟩

theorem failsWith_writePlain
    (hpath : Q path)
    (mode openMode : Nat)
    (content : Bytes) :
    FailsWith (fun _ => True) (Names Q) (writePlain path mode openMode content) :=
  (failsWith_onPath hpath _).bind (fun _ _ => trivial) fun _ =>
    (failsWith_ofUpdate _).bind (fun _ _ => trivial) fun _ => failsWith_ofUpdate _

/-! ## Faults of atomic writes -/

/-- The number of a temporary file for which its name is surely short. -/
def scratchLimit : Nat :=
  10 ^ 51

theorem quotedWith_of_isDigit
    {c : CodePoint}
    (hc : c.isDigit = true) :
    CodePoint.quotedWith (chr '\'') c = [c] := by
  rw [CodePoint.isDigit, decide_eq_true_eq] at hc
  have hall : ∀ d : Fin 10, CodePoint.quotedWith (chr '\'') (Fin.ofNat 0x110000 (0x30 + d.val)) =
      [Fin.ofNat 0x110000 (0x30 + d.val)] := by
    decide +kernel
  have hdigit : Fin.ofNat 0x110000 (0x30 + (c.val - 0x30)) = c := by
    rw [Nat.add_sub_cancel' hc.1]
    exact Fin.ofNat_val_eq_self c
  have hplain := hall ⟨c.val - 0x30, by omega⟩
  rwa [hdigit] at hplain

theorem isPlain_scratchName
    {k : Nat}
    (hk : k < scratchLimit) :
    (scratchName k).isPlain = true := by
  have hdigits := Text.length_ofNat_le (by decide) hk
  have hends : (lit ".tmp-").length = 5 ∧ (lit ".json").length = 5 := by decide
  have hlength : (scratchName k).length < 64 := by
    rw [scratchName_eq, scratchStem]
    simp only [List.length_append, List.length_replicate]
    omega
  have hlit : (lit ".tmp-" ++ lit ".json").all
      (fun c => CodePoint.quotedWith (chr '\'') c == [c]) = true := by
    decide +kernel
  rw [List.all_append, Bool.and_eq_true] at hlit
  rw [Text.isPlain, Bool.and_eq_true]
  refine ⟨decide_eq_true hlength, ?_⟩
  rw [scratchName_eq, scratchStem, List.all_append, List.all_append, List.all_append, hlit.1,
    hlit.2, Bool.and_true, Bool.true_and, Bool.and_eq_true, List.all_eq_true, List.all_eq_true]
  constructor
  · intro c hc
    rw [List.eq_of_mem_replicate hc]
    exact beq_iff_eq.mpr (quotedWith_of_isDigit (by decide))
  · intro c hc
    exact beq_iff_eq.mpr (quotedWith_of_isDigit (Text.isDigit_of_mem_ofNat hc))

theorem inherited_scratchDirectory
    (hQ : Path.Inherited Q)
    {t : FileTree}
    (hworking : Q t.workingPath)
    (hpath : Q path) :
    Q (scratchDirectory t path) := by
  apply hQ.absolute (isAbsolute_join_workingPath t _) hworking
  split
  · exact hQ.plain (by decide +kernel)
  · exact hQ.dirName hpath

theorem newScratchName_of_size
    {t : FileTree}
    (hsize : t.entries.length < scratchLimit)
    (place : Place) :
    ∃ k < scratchLimit, t.newScratchName place = scratchName k := by
  obtain ⟨k, hname, -, htaken⟩ := newScratchName_spec t place
  exact ⟨k, Nat.lt_of_le_of_lt (le_length_entries htaken) hsize, hname⟩

/-- A temporary file is named by a path below its directory, also when it cannot be made. -/
theorem makeScratch_cases
    (hQ : Path.Inherited Q)
    {t : FileTree}
    (hsize : t.entries.length < scratchLimit)
    {directory : Text}
    (hdirectory : Q directory) :
    (∃ fault, t.makeScratch directory = .error fault ∧ fault.Names Q) ∨
      ∃ s t', t.makeScratch directory = .ok (s, t') ∧ Q s.path := by
  have hbelow : ∀ k < scratchLimit, Q (Path.join directory (scratchName k)) :=
    fun k hk => hQ.join hdirectory (hQ.plain (isPlain_scratchName hk))
  rw [makeScratch]
  cases hcheck : FileFault.checkPath directory with
  | error fault =>
      exact Or.inl ⟨fault, rfl, names_of_checkPath hdirectory hcheck⟩
  | ok =>
      rw [ok_bind]
      cases t.directoryAt directory with
      | error errno =>
          exact Or.inl ⟨_, rfl, names_system (hbelow 0 (by decide)) errno⟩
      | ok place =>
          obtain ⟨k, hk, hname⟩ := newScratchName_of_size hsize place
          dsimp only
          rw [hname]
          split
          · exact Or.inl ⟨_, rfl, names_system (hbelow k hk) .nameTooLong⟩
          · exact Or.inr ⟨_, _, rfl, hbelow k hk⟩

theorem failsWith_renameScratch
    {s : Scratch}
    (hscratch : Q s.path)
    (hpath : Q path) :
    FailsWith P (Names Q) (renameScratch s path) := by
  rintro t - fault t' h
  rw [renameScratch, run_ofStep] at h
  cases hcheck : FileFault.checkPath path with
  | error refused =>
      rw [hcheck] at h
      cases h
      exact names_of_checkPath hpath hcheck
  | ok =>
      rw [hcheck, ok_bind] at h
      cases hrename : t.rename s.place path with
      | error errno =>
          rw [hrename] at h
          cases h
          refine ⟨hscratch, fun other hother => ?_⟩
          cases hother
          exact hpath
      | ok t₁ =>
          rw [hrename] at h
          cases h

theorem failsWith_writeAtomic
    (hQ : Path.Inherited Q)
    (hpath : Q path)
    (content : Bytes) :
    FailsWith (fun t => Q t.workingPath ∧ t.entries.length < scratchLimit) (Names Q)
      (writeAtomic path content) := by
  rintro t ⟨hworking, hsize⟩ fault t' h
  rw [writeAtomic, run_bind, run_ofStep] at h
  rcases makeScratch_cases hQ hsize (inherited_scratchDirectory hQ hworking hpath) with
    ⟨refused, hmake, hnames⟩ | ⟨s, t₁, hmake, hscratch⟩
  · rw [hmake] at h
    cases h
    exact hnames
  · rw [hmake] at h
    -- Once the temporary file is there, only the renaming can fail, and it names both paths.
    have hrest : FailsWith (fun _ => True) (Names Q) (do
        append s.serial content
        tryCatch (renameScratch s path) fun fault => do
          dropScratch s
          throw fault) := by
      refine (failsWith_ofUpdate _).bind (fun _ _ => trivial) fun _ => ?_
      refine (failsWith_renameScratch hscratch hpath).tryCatch (fun _ _ => trivial)
        fun fault hfault => ?_
      exact (failsWith_ofUpdate _).bind (fun _ _ => trivial) fun _ => failsWith_throw hfault
    exact hrest t₁ trivial fault t' h

end FileAct

end Keybox

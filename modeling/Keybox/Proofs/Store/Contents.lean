import Keybox.Proofs.FileTree.Directories
import Keybox.Store

/-!
# What a store holds

The files of a store are told apart by network and account, and none of them is in the way of
another: a file lies exactly three levels below the base directory, and the directories above it do
not. So a tree holds what was written so far, each pair in its own file, and writing one more pair
or making the directories for it changes nothing else. The names of temporary files are names that
accounts can have, so those that are taken are counted by the writes.
-/

namespace Keybox

namespace Store

open FileTree (not_isDir_of_none not_isDir_of_file)

/-! ## Identifiers and places -/

/-- An identifier that can stand in a path as it is. -/
structure IsIdentifier
    (t : Text) : Prop where
  scalar : ∀ c ∈ t, c.isSurrogate = false
  noSlash : Path.slash ∉ t
  noNull : 0 ∉ t

theorem IsIdentifier.append
    {s t : Text}
    (hs : IsIdentifier s)
    (ht : IsIdentifier t) :
    IsIdentifier (s ++ t) := by
  refine ⟨?_, ?_, ?_⟩
  · intro c hc
    exact (List.mem_append.mp hc).elim (hs.scalar c) (ht.scalar c)
  · intro hslash
    exact (List.mem_append.mp hslash).elim hs.noSlash ht.noSlash
  · intro hnull
    exact (List.mem_append.mp hnull).elim hs.noNull ht.noNull

theorem isIdentifier_of_all
    {t : Text}
    (h : (t.all fun c => c.isAscii && c != Path.slash && c != 0) = true) :
    IsIdentifier t := by
  have hmem : ∀ c ∈ t, (c.isAscii = true ∧ c ≠ Path.slash) ∧ c ≠ 0 := by
    intro c hc
    simpa using List.all_eq_true.mp h c hc
  exact ⟨fun c hc => Utf8.isSurrogate_of_isAscii (hmem c hc).1.1,
    fun hslash => (hmem _ hslash).1.2 rfl, fun hnull => (hmem _ hnull).2 rfl⟩

theorem IsIdentifier.isName
    {t : Text}
    (h : IsIdentifier t)
    (hspecial : t ≠ [] ∧ t ≠ Path.here ∧ t ≠ Path.up)
    (hfits : FileName.length t ≤ nameLimit) :
    FileName.IsName t :=
  FileName.isName_of_scalar hspecial.1 h.scalar h.noSlash h.noNull hspecial.2.1 hspecial.2.2 hfits

/-- A network and an account that a file below a base directory can be named after. -/
structure Addressable
    (base network account : Text) : Prop where
  networkId : IsIdentifier network
  accountId : IsIdentifier account
  networkNe : network ≠ [] ∧ network ≠ Path.here ∧ network ≠ Path.up
  networkFits : FileName.length network ≤ nameLimit
  fileFits : FileName.length (account ++ lit ".json") ≤ nameLimit
  pathFits : FileName.length (pathIn base network account) < pathLimit

/-- The name of an account's file. -/
def fileName
    (account : Text) : Name :=
  account ++ lit ".json"

/-- The place of the directory of all credentials, below the place of the base directory. -/
def credentialsPlace
    (place : Place) : Place :=
  place ++ [credentialsDir]

/-- The place of a network's directory. -/
def networkPlace
    (place : Place)
    (network : Text) : Place :=
  credentialsPlace place ++ [network]

/-- The place of an account's file. -/
def filePlace
    (place : Place)
    (network account : Text) : Place :=
  networkPlace place network ++ [fileName account]

theorem isName_credentialsDir :
    FileName.IsName credentialsDir :=
  (isIdentifier_of_all (by decide)).isName (by decide) (by decide)

/-- A file's name is longer than the special names of directories. -/
theorem fileName_special
    (account : Text) :
    fileName account ≠ [] ∧ fileName account ≠ Path.here ∧ fileName account ≠ Path.up := by
  have hlong : ∀ t : Text, t.length < 5 → fileName account ≠ t := by
    rintro t ht rfl
    rw [fileName, List.length_append] at ht
    exact absurd ht (Nat.not_lt.mpr (Nat.le_add_left 5 _))
  exact ⟨hlong [] (by decide), hlong Path.here (by decide), hlong Path.up (by decide)⟩

variable
  {base network account : Text}
  {place : Place}

theorem Addressable.isName_network
    (h : Addressable base network account) :
    FileName.IsName network :=
  h.networkId.isName h.networkNe h.networkFits

theorem Addressable.isName_fileName
    (h : Addressable base network account) :
    FileName.IsName (fileName account) := by
  have hid : IsIdentifier (fileName account) := h.accountId.append (isIdentifier_of_all (by decide))
  exact hid.isName (fileName_special account) h.fileFits

theorem filePlace_inj
    {network' account' : Text} :
    filePlace place network account = filePlace place network' account' ↔
      network = network' ∧ account = account' := by
  constructor
  · intro h
    obtain ⟨hnetworks, hfiles⟩ := List.append_inj' h rfl
    obtain ⟨-, hnetworks⟩ := List.append_inj' hnetworks rfl
    exact ⟨List.singleton_injective hnetworks,
      List.append_cancel_right (List.singleton_injective hfiles)⟩
  · rintro ⟨rfl, rfl⟩
    rfl

theorem networkPlace_ne_filePlace
    (n : Text) :
    networkPlace place n ≠ filePlace place network account := by
  intro h
  simpa [filePlace, networkPlace, credentialsPlace] using congrArg List.length h

theorem credentialsPlace_ne_filePlace :
    credentialsPlace place ≠ filePlace place network account := by
  intro h
  simpa [filePlace, networkPlace, credentialsPlace] using congrArg List.length h

/-! ## What was written -/

/-- The pairs that were written, the latest first, each with its network. -/
abbrev Writes := List (Text × KeyPair)

/-- The pair that was written last for an account of a network. -/
def Writes.last?
    (network account : Text) : Writes → Option KeyPair
  | [] => none
  | (n, p) :: before =>
      if n = network ∧ p.account = account then some p else last? network account before

/-- A write counts for its own network and account only. -/
theorem Writes.last?_cons_of_ne
    {n : Text}
    {p : KeyPair}
    (hne : ¬ (n = network ∧ p.account = account))
    (before : Writes) :
    last? network account ((n, p) :: before) = last? network account before := by
  rw [last?, if_neg hne]

theorem Writes.last?_cons_self
    (network : Text)
    (p : KeyPair)
    (before : Writes) :
    last? network p.account ((network, p) :: before) = some p := by
  rw [last?, if_pos ⟨rfl, rfl⟩]

theorem Writes.mem_of_last?
    {writes : Writes}
    {p : KeyPair}
    (h : writes.last? network account = some p) :
    (network, p) ∈ writes ∧ p.account = account := by
  induction writes with
  | nil =>
      cases h
  | cons write before ih =>
      obtain ⟨n, q⟩ := write
      rw [last?] at h
      split at h
      · next heq =>
        obtain rfl := Option.some.inj h
        obtain ⟨rfl, rfl⟩ := heq
        exact ⟨List.mem_cons_self, rfl⟩
      · obtain ⟨hmem, haccount⟩ := ih h
        exact ⟨List.mem_cons_of_mem _ hmem, haccount⟩

/-! ## The tree of what was written -/

variable {writes : Writes}

/-- A tree that holds what was written below a base directory: each file has the text of the pair
written last, there are no files of accounts that nothing was written for, and what is above the
files is a directory if it is there. -/
structure Holds
    (t : FileTree)
    (base : Text)
    (place : Place)
    (writes : Writes) : Prop where
  wellFormed : t.WellFormed
  base : t.LeadsTo base place
  credentials : t.get? (credentialsPlace place) = none ∨ t.IsDir (credentialsPlace place)
  network : ∀ n, t.get? (networkPlace place n) = none ∨ t.IsDir (networkPlace place n)
  written : ∀ n a p, writes.last? n a = some p →
    ∃ serial, t.get? (filePlace place n a) = some (.file serial fileMode (contentOf p))
  unwritten : ∀ n a, writes.last? n a = none → t.get? (filePlace place n a) = none

variable
  {t t' : FileTree}

/-- Without the directory of credentials, nothing is below it. -/
theorem holds_nil
    (hwf : t.WellFormed)
    (hbase : t.LeadsTo base place)
    (hvacant : t.get? (credentialsPlace place) = none) :
    Holds t base place [] := by
  have hnetwork : ∀ n, t.get? (networkPlace place n) = none := by
    intro n
    by_contra hthere
    obtain ⟨entry, hentry⟩ := Option.ne_none_iff_exists'.mp hthere
    exact not_isDir_of_none hvacant (hwf.parent _ n entry hentry)
  refine ⟨hwf, hbase, Or.inl hvacant, fun n => Or.inl (hnetwork n), ?_, ?_⟩
  · intro n a p hp
    cases hp
  · intro n a _
    by_contra hthere
    obtain ⟨entry, hentry⟩ := Option.ne_none_iff_exists'.mp hthere
    exact not_isDir_of_none (hnetwork n) (hwf.parent _ _ entry hentry)

/-- A directory that is none of the files' places can be made or changed. -/
theorem Holds.becomes_dir
    (h : Holds t base place writes)
    {other : Place}
    {mode : Nat}
    (hb : t.Becomes other (.dir mode) t')
    (hwf : t'.WellFormed)
    (hother : ∀ n a, filePlace place n a ≠ other) :
    Holds t' base place writes := by
  have hkeeps : ∀ q, t.get? q = none ∨ t.IsDir q → t'.get? q = none ∨ t'.IsDir q := by
    intro q hq
    by_cases heq : q = other
    · exact Or.inr ⟨mode, heq ▸ hb.get_self⟩
    · rw [FileTree.IsDir, hb.get_of_ne heq]
      exact hq
  refine ⟨hwf, h.base.mono (fun q hq => hb.isDir_of_dir hq) hb.workingDir,
    hkeeps _ h.credentials, fun n => hkeeps _ (h.network n), ?_, ?_⟩
  · intro n a p hp
    rw [hb.get_of_ne (hother n a)]
    exact h.written n a p hp
  · intro n a hnone
    rw [hb.get_of_ne (hother n a)]
    exact h.unwritten n a hnone

theorem Holds.not_isDir_filePlace
    (h : Holds t base place writes)
    (network account : Text) :
    ¬ t.IsDir (filePlace place network account) := by
  cases hlast : writes.last? network account with
  | none =>
      exact not_isDir_of_none (h.unwritten network account hlast)
  | some p =>
      obtain ⟨serial, hfile⟩ := h.written network account p hlast
      exact not_isDir_of_file hfile

/-- A pair's file is written and all others stay. -/
theorem Holds.becomes_file
    (h : Holds t base place writes)
    {p : KeyPair}
    {serial : Nat}
    (hb : t.Becomes (filePlace place network p.account) (.file serial fileMode (contentOf p)) t')
    (hwf : t'.WellFormed) :
    Holds t' base place ((network, p) :: writes) := by
  have hdirs : ∀ q, t.IsDir q → t'.IsDir q := fun q hq =>
    hb.isDir (fun hdir => absurd hdir (h.not_isDir_filePlace network p.account)) hq
  refine ⟨hwf, h.base.mono hdirs hb.workingDir, ?_, ?_, ?_, ?_⟩
  · rw [FileTree.IsDir, hb.get_of_ne credentialsPlace_ne_filePlace]
    exact h.credentials
  · intro n
    rw [FileTree.IsDir, hb.get_of_ne (networkPlace_ne_filePlace n)]
    exact h.network n
  · intro n a q hq
    by_cases heq : network = n ∧ p.account = a
    · obtain ⟨rfl, rfl⟩ := heq
      rw [Writes.last?_cons_self] at hq
      obtain rfl := Option.some.inj hq
      exact ⟨serial, hb.get_self⟩
    · rw [Writes.last?_cons_of_ne heq] at hq
      rw [hb.get_of_ne fun hplace => heq (filePlace_inj.mp hplace.symm)]
      exact h.written n a q hq
  · intro n a hnone
    by_cases heq : network = n ∧ p.account = a
    · obtain ⟨rfl, rfl⟩ := heq
      rw [Writes.last?_cons_self] at hnone
      cases hnone
    · rw [Writes.last?_cons_of_ne heq] at hnone
      rw [hb.get_of_ne fun hplace => heq (filePlace_inj.mp hplace.symm)]
      exact h.unwritten n a hnone

/-- What was written is in a network's directory, which is in the directory of credentials. -/
theorem Holds.isDir_of_last?
    (h : Holds t base place writes)
    {p : KeyPair}
    (hlast : writes.last? network account = some p) :
    t.IsDir (credentialsPlace place) ∧ t.IsDir (networkPlace place network) := by
  obtain ⟨serial, hfile⟩ := h.written network account p hlast
  have hnetwork := h.wellFormed.parent _ _ _ hfile
  obtain ⟨mode, hmode⟩ := hnetwork
  exact ⟨h.wellFormed.parent _ _ _ hmode, mode, hmode⟩

/-! ## Paths to what was written -/

theorem pathIn_eq
    (base network account : Text) :
    pathIn base network account =
      Path.join (Path.join (Path.join base credentialsDir) network) (fileName account) :=
  rfl

/-- The paths on the way to a file are not too long. -/
theorem Addressable.upperFits
    (h : Addressable base network account) :
    FileName.length (Path.join base credentialsDir) < pathLimit ∧
      FileName.length (Path.join (Path.join base credentialsDir) network) < pathLimit := by
  have hnetwork : Path.join base credentialsDir <+:
      Path.join (Path.join base credentialsDir) network :=
    h.isName_network.component.isPrefix_join _
  have hfile : Path.join (Path.join base credentialsDir) network <+: pathIn base network account :=
    h.isName_fileName.component.isPrefix_join _
  exact ⟨Nat.lt_of_le_of_lt (FileName.length_le_of_prefix (hnetwork.trans hfile)) h.pathFits,
    Nat.lt_of_le_of_lt (FileName.length_le_of_prefix hfile) h.pathFits⟩

theorem Addressable.isPath
    (h : Addressable base network account)
    (hbase : FileTree.IsPath base) :
    FileTree.IsPath (Path.join base credentialsDir) ∧
      FileTree.IsPath (pathIn base network account) := by
  obtain ⟨hupper, hlower⟩ := h.upperFits
  have h₁ := FileTree.isPath_join hbase.fileName hbase.ne_nil isName_credentialsDir hupper
  have h₂ := FileTree.isPath_join h₁.fileName h₁.ne_nil h.isName_network hlower
  exact ⟨h₁, FileTree.isPath_join h₂.fileName h₂.ne_nil h.isName_fileName h.pathFits⟩

theorem Addressable.dirName_pathIn
    (h : Addressable base network account)
    (hbase : FileTree.IsPath base) :
    Path.dirName (pathIn base network account) =
      Path.join (Path.join base credentialsDir) network := by
  have hupper := (h.isPath hbase).1.ne_nil
  refine h.isName_fileName.component.dirName_join (Path.join_ne_nil hupper network) ?_
  rw [h.isName_network.component.getLast?_join hupper]
  exact h.isName_network.component.getLast?_ne

theorem Holds.leadsTo_credentials
    (h : Holds t base place writes)
    (haddress : Addressable base network account)
    (hdir : t.IsDir (credentialsPlace place)) :
    t.LeadsTo (Path.join base credentialsDir) (credentialsPlace place) :=
  (h.base.names_join isName_credentialsDir haddress.upperFits.1).leadsTo hdir

theorem Holds.leadsTo_network
    (h : Holds t base place writes)
    (haddress : Addressable base network account)
    (hdir : t.IsDir (networkPlace place network)) :
    t.LeadsTo (Path.join (Path.join base credentialsDir) network) (networkPlace place network) := by
  obtain ⟨mode, hmode⟩ := hdir
  have hcredentials := h.leadsTo_credentials haddress (h.wellFormed.parent _ _ _ hmode)
  exact (hcredentials.names_join haddress.isName_network haddress.upperFits.2).leadsTo ⟨mode, hmode⟩

theorem Holds.names_file
    (h : Holds t base place writes)
    (haddress : Addressable base network account)
    (hdir : t.IsDir (networkPlace place network)) :
    t.Names (pathIn base network account) (networkPlace place network) (fileName account) :=
  (h.leadsTo_network haddress hdir).names_join haddress.isName_fileName haddress.pathFits

/-! ## Reading -/

/-- Without a directory on the way, a file's path leads to nothing. -/
theorem Holds.contentAt_unwritten
    (h : Holds t base place writes)
    (haddress : Addressable base network account)
    (hlast : writes.last? network account = none) :
    t.contentAt (pathIn base network account) = .error .noEntry := by
  obtain ⟨hupper, hpath⟩ := haddress.isPath h.base.isPath
  have hnetwork := haddress.isName_network
  have hfile := haddress.isName_fileName
  have hrelative := fun {c : Text} (hc : FileName.IsName c) => hc.component.isAbsolute_eq
  have habsolute : Path.isAbsolute (pathIn base network account) =
      Path.isAbsolute (Path.join base credentialsDir) := by
    rw [pathIn_eq, Path.isAbsolute_join (Path.join_ne_nil hupper.ne_nil network) (hrelative hfile),
      Path.isAbsolute_join hupper.ne_nil (hrelative hnetwork)]
  have hnames : (Route.ofText (pathIn base network account)).names =
      (Route.ofText (Path.join base credentialsDir)).names ++ [network, fileName account] := by
    rw [pathIn_eq, FileTree.names_ofText_join _ hfile, FileTree.names_ofText_join _ hnetwork,
      List.append_assoc]
    rfl
  rw [FileTree.contentAt]
  rcases h.credentials with hnone | hdir
  · have hbase : (Route.ofText (pathIn base network account)).names =
        (Route.ofText base).names ++ credentialsDir :: [network, fileName account] := by
      rw [hnames, FileTree.names_ofText_join _ isName_credentialsDir]
      simp
    rw [Path.isAbsolute_join h.base.isPath.ne_nil (hrelative isName_credentialsDir)] at habsolute
    rw [h.base.resolve_missing hpath habsolute hbase (by simp) isName_credentialsDir hnone]
    rfl
  · have hcredentials := h.leadsTo_credentials haddress hdir
    rcases h.network network with hnone | hdir
    · rw [hcredentials.resolve_missing hpath habsolute hnames (by simp) hnetwork hnone]
      rfl
    · rw [(h.names_file haddress hdir).resolve_vacant (h.unwritten network account hlast)]
      rfl

theorem Holds.run_read_unwritten
    (h : Holds t base place writes)
    (haddress : Addressable base network account)
    (hlast : writes.last? network account = none) :
    (FileAct.read (pathIn base network account)).run t =
      (.error (.system .noEntry (pathIn base network account) none), t) :=
  FileAct.run_read_of_error (haddress.isPath h.base.isPath).2.fileName
    (h.contentAt_unwritten haddress hlast)

theorem Holds.run_read_written
    (h : Holds t base place writes)
    (haddress : Addressable base network account)
    {p : KeyPair}
    (hlast : writes.last? network account = some p) :
    (FileAct.read (pathIn base network account)).run t = (.ok (contentOf p), t) := by
  obtain ⟨serial, hfile⟩ := h.written network account p hlast
  obtain ⟨-, hdir⟩ := h.isDir_of_last? hlast
  have hnames := h.names_file haddress hdir
  exact FileAct.run_read_file hnames.isPath.fileName (hnames.resolve_file hfile .reading)
    (by decide)

/-! ## Writing -/

/-- Making sure of a network's directory leaves what was written as it is. -/
theorem Holds.run_ensureDirectories
    (h : Holds t base place writes)
    (haddress : Addressable base network account) :
    ∃ t', (FileAct.ensureDirectories (Path.dirName (pathIn base network account)) dirMode).run t =
        (.ok (), t') ∧
      Holds t' base place writes ∧ t'.IsDir (networkPlace place network) ∧
        t'.workingDir = t.workingDir := by
  rw [haddress.dirName_pathIn h.base.isPath]
  obtain ⟨mode₁, mode₂, t₁, t₂, hrun, hb₁, hb₂, hwf₁, hwf₂⟩ :=
    FileAct.run_ensureDirectories h.wellFormed h.base isName_credentialsDir haddress.isName_network
      haddress.upperFits.2 h.credentials (h.network network) dirMode
  have h₁ : Holds t₁ base place writes :=
    h.becomes_dir hb₁ hwf₁ fun n a => credentialsPlace_ne_filePlace.symm
  have h₂ : Holds t₂ base place writes :=
    h₁.becomes_dir hb₂ hwf₂ fun n a => (networkPlace_ne_filePlace network).symm
  exact ⟨t₂, hrun, h₂, ⟨mode₂, hb₂.get_self⟩, hb₂.workingDir.trans hb₁.workingDir⟩

/-- A name of a temporary file is the name of an account's file. If it is taken, something was
written for that account, so no more of them are taken than there were writes. -/
theorem Holds.le_length_of_taken
    (h : Holds t base place writes)
    {k : Nat}
    (htaken : ∀ j < k,
      t.get? (networkPlace place network ++ [FileTree.scratchName j]) ≠ none) :
    k ≤ writes.length := by
  have hmem : ∀ j < k, FileTree.scratchStem j ∈ writes.map fun write => write.2.account := by
    intro j hj
    have htakenJ := htaken j hj
    rw [FileTree.scratchName_eq] at htakenJ
    cases hlast : writes.last? network (FileTree.scratchStem j) with
    | none =>
        exact absurd (h.unwritten network _ hlast) htakenJ
    | some p =>
        obtain ⟨hp, haccount⟩ := Writes.mem_of_last? hlast
        exact List.mem_map.mpr ⟨_, hp, haccount⟩
  have hle := FileTree.le_length_of_injective FileTree.scratchStem_injective hmem
  rwa [List.length_map] at hle

/-- The path of a temporary file for an account's file is not too long, if no more than so many
names are taken. -/
def ScratchFits
    (t : FileTree)
    (base network account : Text)
    (bound : Nat) : Prop :=
  ∀ n ≤ bound,
    FileName.length (Path.join (FileAct.scratchDirectory t (pathIn base network account))
      (FileTree.scratchName n)) < pathLimit

/-- The directory of temporary files is the network's directory, by its absolute path. -/
theorem Holds.leadsTo_scratchDirectory
    (h : Holds t base place writes)
    (haddress : Addressable base network account)
    (hdir : t.IsDir (networkPlace place network))
    {bound : Nat}
    (hscratch : ScratchFits t base network account bound) :
    t.LeadsTo (FileAct.scratchDirectory t (pathIn base network account))
      (networkPlace place network) := by
  have hnetwork := h.leadsTo_network haddress hdir
  have hdirectory : FileAct.scratchDirectory t (pathIn base network account) =
      Path.absolute t.workingPath (Path.join (Path.join base credentialsDir) network) := by
    rw [FileAct.scratchDirectory, haddress.dirName_pathIn h.base.isPath,
      if_neg hnetwork.isPath.ne_nil]
  have hfits := hscratch 0 (Nat.zero_le bound)
  rw [hdirectory] at hfits ⊢
  apply hnetwork.absolute h.wellFormed
  exact Nat.lt_of_le_of_lt
    (FileName.length_le_of_prefix ((FileTree.isComponent_scratchName 0).isPrefix_join _)) hfits

/-- Both ways of writing put a pair into its file. -/
theorem Holds.run_writeFile
    (h : Holds t base place writes)
    {p : KeyPair}
    (haddress : Addressable base network p.account)
    (hdir : t.IsDir (networkPlace place network))
    {atomic : Bool}
    (hscratch : atomic = true → ScratchFits t base network p.account writes.length) :
    ∃ t', (writeFile (pathIn base network p.account) atomic p).run t = (.ok (), t') ∧
      Holds t' base place ((network, p) :: writes) ∧ t'.workingDir = t.workingDir := by
  have hnames := h.names_file haddress hdir
  cases atomic with
  | false =>
      have htarget : t.get? (filePlace place network p.account) = none ∨ ∃ serial mode content,
          t.get? (filePlace place network p.account) = some (.file serial mode content) ∧
            ownerWrites mode = true := by
        cases hlast : writes.last? network p.account with
        | none =>
            exact Or.inl (h.unwritten network p.account hlast)
        | some q =>
            obtain ⟨serial, hfile⟩ := h.written network p.account q hlast
            exact Or.inr ⟨serial, fileMode, contentOf q, hfile, by decide⟩
      obtain ⟨serial, t', hrun, hb, hwf⟩ := FileAct.run_writePlain h.wellFormed
        hnames.isPath.fileName (hnames.opens htarget) fileMode fileMode (contentOf p)
      exact ⟨t', hrun, h.becomes_file hb hwf, hb.workingDir⟩
  | true =>
      obtain ⟨k, hk, -, htaken⟩ := FileTree.newScratchName_spec t (networkPlace place network)
      have hparent := h.leadsTo_scratchDirectory haddress hdir (hscratch rfl)
      have hfits := hscratch rfl k (h.le_length_of_taken htaken)
      rw [← hk] at hfits
      obtain ⟨t', hrun, hb, hwf⟩ := FileAct.run_writeAtomic h.wellFormed hnames.isPath.fileName
        (hnames.admits h.wellFormed (h.not_isDir_filePlace network p.account))
        (FileTree.makeScratch_spec h.wellFormed hparent hfits) (contentOf p)
      exact ⟨t', hrun, h.becomes_file hb hwf, hb.workingDir⟩

end Store

end Keybox

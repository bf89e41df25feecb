import Keybox.Proofs.FileTree.Writing

/-!
# Making directories

Making sure of a directory leaves one at its place, new or as it was, and changes nothing else.
Making sure of a directory below another makes sure of the upper one first; how that comes about
depends on whether the upper one is there, what it comes to does not.
-/

namespace Keybox

namespace FileTree

variable
  {t t' : FileTree}
  {place directory : Place}
  {name : Name}
  {path : Text}

theorem becomes_refl
    {entry : Entry}
    (h : t.get? place = some entry) :
    t.Becomes place entry t := by
  refine ⟨?_, rfl, Nat.le_refl _⟩
  intro other
  split
  · next heq => rw [heq, h]
  · rfl

theorem WellFormed.becomes_dir
    (hwf : t.WellFormed)
    (hdirectory : t.IsDir directory)
    {mode : Nat}
    (hb : t.Becomes (directory ++ [name]) (.dir mode) t') :
    t'.WellFormed := by
  refine hwf.becomes hb hdirectory (fun _ => ⟨mode, rfl⟩) ?_
  rintro _ _ _ ⟨⟩

/-- A directory more takes no directory away. -/
theorem Becomes.isDir_of_dir
    {mode : Nat}
    (hb : t.Becomes place (.dir mode) t')
    {other : Place}
    (hother : t.IsDir other) :
    t'.IsDir other :=
  hb.isDir (fun _ => ⟨mode, rfl⟩) hother

theorem makeDirectory_of_vacant
    (hwf : t.WellFormed)
    (h : t.Names path directory name)
    (hnone : t.get? (directory ++ [name]) = none)
    (mode : Nat) :
    t.makeDirectory path mode = .ok (t.set (directory ++ [name]) (.dir mode)) := by
  rw [makeDirectory, makeEntry, h.parentOf hwf, ok_bind]
  dsimp only
  rw [if_neg (Nat.not_lt.mpr h.isName.fits), hnone]

theorem makeDirectory_of_isDir
    (hwf : t.WellFormed)
    (h : t.Names path directory name)
    (hdir : t.IsDir (directory ++ [name]))
    (mode : Nat) :
    t.makeDirectory path mode = .error .alreadyThere := by
  obtain ⟨old, hold⟩ := hdir
  rw [makeDirectory, makeEntry, h.parentOf hwf, ok_bind]
  dsimp only
  rw [if_neg (Nat.not_lt.mpr h.isName.fits), hold]

theorem Names.not_isThere
    (h : t.Names path directory name)
    (hnone : t.get? (directory ++ [name]) = none) :
    t.isThere path = false := by
  rw [FileTree.isThere, h.resolve_vacant hnone]

end FileTree

namespace FileAct

open FileTree

variable
  {t t₁ : FileTree}
  {directory : Place}
  {name : Name}
  {path : Text}

theorem run_ensureDirectory
    (hwf : t.WellFormed)
    (h : t.Names path directory name)
    (htarget : t.get? (directory ++ [name]) = none ∨ t.IsDir (directory ++ [name]))
    (mode : Nat) :
    ∃ mode' t', (ensureDirectory path mode).run t = (.ok (), t') ∧
      t.Becomes (directory ++ [name]) (.dir mode') t' := by
  rcases htarget with hnone | hdir
  · have hmake : (FileAct.makeDirectory path mode).run t =
        (.ok (), t.set (directory ++ [name]) (.dir mode)) := by
      rw [FileAct.makeDirectory, run_onPath_eq_ok_iff, makeDirectory_of_vacant hwf h hnone]
      exact ⟨h.isPath.fileName, rfl⟩
    exact ⟨mode, _, run_tryCatch_of_ok hmake _, becomes_set (by simp) _⟩
  · have hmake : (FileAct.makeDirectory path mode).run t =
        (.error (.system .alreadyThere path none), t) := by
      apply run_onPath_of_error h.isPath.fileName
      rw [makeDirectory_of_isDir hwf h hdir]
      rfl
    have hthere : FileAct.isDirectory t path = true := by
      rw [FileAct.isDirectory, h.isPath.fileName]
      exact (h.leadsTo hdir).isDirectory hwf
    obtain ⟨old, hold⟩ := hdir
    refine ⟨old, t, (run_tryCatch_of_error hmake _).trans ?_, becomes_refl hold⟩
    rw [run_bind_of_ok (run_get t), if_pos ⟨rfl, hthere⟩]
    rfl

theorem lacksParent_eq
    {parts : Text × Text}
    (hparts : splitLast path = parts)
    (hparent : parts.1 ≠ [])
    (hlast : parts.2 ≠ []) :
    lacksParent t path = !FileAct.isThere t parts.1 := by
  rw [lacksParent, hparts]
  simp [hparent, hlast]

theorem run_makeEachWithin_of_there
    {make : Text → Nat → FileAct Unit}
    {missing mode : Nat}
    (h : lacksParent t path = false) :
    (makeEachWithin make missing path mode).run t = (make path mode).run t := by
  cases missing with
  | zero =>
      rw [makeEachWithin, run_bind_of_ok (run_get t), h]
      rfl
  | succ missing =>
      rw [makeEachWithin, run_bind_of_ok (run_get t), h]
      rfl

theorem run_makeEachWithin_of_missing
    {make : Text → Nat → FileAct Unit}
    {missing mode : Nat}
    (h : lacksParent t path = true)
    (hlast : (splitLast path).2 ≠ Path.here)
    (hparent : (makeEachWithin make missing (splitLast path).1 plainDirMode).run t = (.ok (), t₁)) :
    (makeEachWithin make (missing + 1) path mode).run t = (make path mode).run t₁ := by
  have hunless : (unlessThere (makeEachWithin make missing (splitLast path).1 plainDirMode)).run t =
      (.ok (), t₁) := run_tryCatch_of_ok hparent _
  rw [makeEachWithin, run_bind_of_ok (run_get t), if_pos h]
  dsimp only
  rw [run_bind_of_ok hunless, if_neg hlast]

theorem splitLast_join
    {base c : Text}
    (hbase : base ≠ [])
    (hc : Path.IsComponent c) :
    splitLast (Path.join base c) = (Path.dirName (Path.join base c), c) := by
  rw [splitLast, hc.baseName_join hbase, if_neg hc.ne_nil]

theorem isThere_of_leadsTo
    (hwf : t.WellFormed)
    (h : t.LeadsTo path directory) :
    FileAct.isThere t path = true := by
  rw [FileAct.isThere, h.isPath.fileName]
  exact h.isThere hwf

/-! ## Two levels at once -/

section

variable
  {base : Text}
  {upper lower : Name}

/-- A path two levels below a base directory is split into the path one level below and a name. -/
theorem splitLast_two
    (hbase : base ≠ [])
    (hupper : Path.IsComponent upper)
    (hlower : Path.IsComponent lower) :
    splitLast (Path.join (Path.join base upper) lower) = (Path.join base upper, lower) := by
  have hne : Path.join base upper ≠ [] := Path.join_ne_nil hbase upper
  have hlast : (Path.join base upper).getLast? ≠ some Path.slash := by
    rw [hupper.getLast?_join hbase]
    exact hupper.getLast?_ne
  rw [splitLast_join hne hlower, hlower.dirName_join hne hlast]

/-- When the upper directory is there already, the lower one is made in it. -/
theorem run_ensureDirectories_of_isDir
    (hwf : t.WellFormed)
    (hupper : t.LeadsTo (Path.join base upper) (directory ++ [upper]))
    (hlower : FileName.IsName lower)
    (hsplit : splitLast (Path.join (Path.join base upper) lower) = (Path.join base upper, lower))
    (hshort : FileName.length (Path.join (Path.join base upper) lower) < pathLimit)
    (hlowerPlace : t.get? (directory ++ [upper] ++ [lower]) = none ∨
      t.IsDir (directory ++ [upper] ++ [lower]))
    (mode : Nat) :
    ∃ mode' t', (ensureDirectories (Path.join (Path.join base upper) lower) mode).run t =
        (.ok (), t') ∧
      t.Becomes (directory ++ [upper] ++ [lower]) (.dir mode') t' := by
  have hthere : lacksParent t (Path.join (Path.join base upper) lower) = false := by
    rw [lacksParent_eq hsplit hupper.isPath.ne_nil hlower.component.ne_nil,
      isThere_of_leadsTo hwf hupper]
    rfl
  obtain ⟨mode', t', hrun, hb⟩ :=
    run_ensureDirectory hwf (hupper.names_join hlower hshort) hlowerPlace mode
  exact ⟨mode', t', (run_makeEachWithin_of_there hthere).trans hrun, hb⟩

/-- When the upper directory is not there, it is made first. -/
theorem run_ensureDirectories_of_vacant
    (hwf : t.WellFormed)
    (hbase : t.LeadsTo base directory)
    (hupper : t.Names (Path.join base upper) directory upper)
    (hlower : FileName.IsName lower)
    (hsplit : splitLast (Path.join (Path.join base upper) lower) = (Path.join base upper, lower))
    (hshort : FileName.length (Path.join (Path.join base upper) lower) < pathLimit)
    (hnone : t.get? (directory ++ [upper]) = none)
    (hlowerPlace : t.get? (directory ++ [upper] ++ [lower]) = none ∨
      t.IsDir (directory ++ [upper] ++ [lower]))
    (mode : Nat) :
    ∃ mode₁ mode₂ t₁ t₂,
      (ensureDirectories (Path.join (Path.join base upper) lower) mode).run t = (.ok (), t₂) ∧
        t.Becomes (directory ++ [upper]) (.dir mode₁) t₁ ∧
          t₁.Becomes (directory ++ [upper] ++ [lower]) (.dir mode₂) t₂ := by
  have hmissing : lacksParent t (Path.join (Path.join base upper) lower) = true := by
    rw [lacksParent_eq hsplit hupper.isPath.ne_nil hlower.component.ne_nil, FileAct.isThere,
      hupper.isPath.fileName]
    dsimp only
    rw [hupper.not_isThere hnone]
    rfl
  have hbaseThere : lacksParent t (Path.join base upper) = false := by
    have hleads := hbase.dirName_join hupper.isName hupper.isPath.short
    rw [lacksParent_eq (splitLast_join hbase.isPath.ne_nil hupper.isName.component)
      hleads.isPath.ne_nil hupper.isName.component.ne_nil, isThere_of_leadsTo hwf hleads]
    rfl
  obtain ⟨mode₁, t₁, hrun₁, hb₁⟩ := run_ensureDirectory hwf hupper (Or.inl hnone) plainDirMode
  have hwf₁ := hwf.becomes_dir (hbase.isDir hwf) hb₁
  -- The upper directory is there now, and the place of the lower one is as it was.
  have hupper₁ := (hupper.mono (fun q hq => hb₁.isDir_of_dir hq) hb₁.workingDir).leadsTo
    ⟨mode₁, hb₁.get_self⟩
  have hlowerPlace₁ : t₁.get? (directory ++ [upper] ++ [lower]) = none ∨
      t₁.IsDir (directory ++ [upper] ++ [lower]) := by
    have hsame : t₁.get? (directory ++ [upper] ++ [lower]) =
        t.get? (directory ++ [upper] ++ [lower]) := hb₁.get_of_ne (by simp)
    rw [IsDir, hsame]
    exact hlowerPlace
  obtain ⟨mode₂, t₂, hrun₂, hb₂⟩ :=
    run_ensureDirectory hwf₁ (hupper₁.names_join hlower hshort) hlowerPlace₁ mode
  refine ⟨mode₁, mode₂, t₁, t₂, Eq.trans ?_ hrun₂, hb₁, hb₂⟩
  apply run_makeEachWithin_of_missing hmissing
  · rw [hsplit]
    exact hlower.notHere
  · rw [hsplit]
    exact (run_makeEachWithin_of_there hbaseThere).trans hrun₁

/-- Making sure of a directory two levels below one that is there. -/
theorem run_ensureDirectories
    (hwf : t.WellFormed)
    (hbase : t.LeadsTo base directory)
    (hupper : FileName.IsName upper)
    (hlower : FileName.IsName lower)
    (hshort : FileName.length (Path.join (Path.join base upper) lower) < pathLimit)
    (hupperPlace : t.get? (directory ++ [upper]) = none ∨ t.IsDir (directory ++ [upper]))
    (hlowerPlace : t.get? (directory ++ [upper] ++ [lower]) = none ∨
      t.IsDir (directory ++ [upper] ++ [lower]))
    (mode : Nat) :
    ∃ mode₁ mode₂ t₁ t₂,
      (ensureDirectories (Path.join (Path.join base upper) lower) mode).run t = (.ok (), t₂) ∧
        t.Becomes (directory ++ [upper]) (.dir mode₁) t₁ ∧
          t₁.Becomes (directory ++ [upper] ++ [lower]) (.dir mode₂) t₂ ∧
            t₁.WellFormed ∧ t₂.WellFormed := by
  have hsplit := splitLast_two hbase.isPath.ne_nil hupper.component hlower.component
  have hupperShort : FileName.length (Path.join base upper) < pathLimit :=
    Nat.lt_of_le_of_lt (FileName.length_le_of_prefix (hlower.component.isPrefix_join _)) hshort
  have hnames := hbase.names_join hupper hupperShort
  rcases hupperPlace with hnone | hdir
  · obtain ⟨mode₁, mode₂, t₁, t₂, hrun, hb₁, hb₂⟩ :=
      run_ensureDirectories_of_vacant hwf hbase hnames hlower hsplit hshort hnone hlowerPlace mode
    have hwf₁ := hwf.becomes_dir (hbase.isDir hwf) hb₁
    exact ⟨mode₁, mode₂, t₁, t₂, hrun, hb₁, hb₂, hwf₁,
      hwf₁.becomes_dir ⟨mode₁, hb₁.get_self⟩ hb₂⟩
  · obtain ⟨mode₂, t₂, hrun, hb₂⟩ :=
      run_ensureDirectories_of_isDir hwf (hnames.leadsTo hdir) hlower hsplit hshort hlowerPlace mode
    obtain ⟨mode₁, hmode₁⟩ := hdir
    exact ⟨mode₁, mode₂, t, t₂, hrun, becomes_refl hmode₁, hb₂, hwf,
      hwf.becomes_dir ⟨mode₁, hmode₁⟩ hb₂⟩

end

end FileAct

end Keybox

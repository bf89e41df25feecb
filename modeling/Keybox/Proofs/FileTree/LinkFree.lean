import Keybox.Proofs.FileTree.Written

/-!
# Trees without links

Without links the two ways of writing are for the same paths and put the file at the same place. The
directory of the temporary file is found by another path, the normal form of what stands before the
last component; it leads to the directory that the last name is looked up in.
-/

namespace Keybox

namespace FileTree

variable
  {t : FileTree}
  {place directory : Place}
  {name : Name}
  {path : Text}

/-- A tree without links. -/
def LinkFree
    (t : FileTree) : Prop :=
  ∀ place target, t.get? place ≠ some (.link target)

/-- A path that leads to a file which its owner may not write. -/
def Denies
    (t : FileTree)
    (path : Text) : Prop :=
  FileFault.checkPath path = .ok () ∧ ∃ place serial mode content,
    t.resolve .creating path = .ok (.entry place (.file serial mode content)) ∧
      ownerWrites mode = false

/-! ## The same places -/

/-- A path that leads to anything but a directory admits a file. -/
theorem admits_of_resolve
    (hwf : t.WellFormed)
    (hlinks : t.LinkFree)
    {target : Target}
    (h : t.resolve .creating path = .ok target)
    (hnotDir : ∀ place mode, target ≠ .entry place (.dir mode)) :
    ∃ directory name, t.Admits path directory name := by
  obtain ⟨links, directory, c, hc, hdirectory, hsteps, htarget⟩ :=
    exists_steps_of_resolve hwf h hnotDir
  obtain ⟨hslash, front, hnames, hfollow⟩ := hsteps.follow hlinks
  have hlast : lastOf (Route.ofText path) = .name c false := by
    rw [lastOf, hnames, List.getLast?_concat]
    dsimp only
    rw [if_neg (by simp [hc.notHere, hc.notUp]), ← hslash]
  have hparent : t.parentOf path = .ok (directory, .name c false) := by
    refine parentOf_eq_ok_iff.mpr
      ⟨(resolve_eq_ok_iff.mp h).1, hlast, hdirectory, linkLimit, true, ?_⟩
    rw [frontStage, hnames, List.dropLast_concat]
    exact steps_of_follow hfollow linkLimit true
  refine ⟨directory, c, hparent, hc.fits, ?_⟩
  rcases htarget with ⟨-, hnone⟩ | ⟨_, _, _, -, hfile⟩
  · exact not_isDir_of_none hnone
  · exact not_isDir_of_file hfile

theorem Opens.exists_admits
    (hwf : t.WellFormed)
    (hlinks : t.LinkFree)
    (h : t.Opens path place) :
    ∃ directory name, t.Admits path directory name := by
  cases h with
  | file hleads _ =>
      exact admits_of_resolve hwf hlinks hleads (by rintro _ _ ⟨⟩)
  | vacant hleads =>
      exact admits_of_resolve hwf hlinks hleads (by rintro _ _ ⟨⟩)

/-- A path opens the place that it admits a file at, unless its owner may not write what is
there. -/
theorem Admits.opens
    (hlinks : t.LinkFree)
    (h : t.Admits path directory name)
    (hcheck : FileFault.checkPath path = .ok ())
    (hdenies : ¬ t.Denies path) :
    t.Opens path (directory ++ [name]) := by
  cases hget : t.get? (directory ++ [name]) with
  | none =>
      exact .vacant (resolve_of_parentOf h.parentOf fun _ => goOn_vacant h.ordinary hget .creating)
  | some entry =>
      cases entry with
      | dir mode =>
          exact absurd ⟨mode, hget⟩ h.notDir
      | link target =>
          exact absurd hget (hlinks _ target)
      | file serial mode content =>
          have hleads : t.resolve .creating path =
              .ok (.entry (directory ++ [name]) (.file serial mode content)) :=
            resolve_of_parentOf h.parentOf fun _ => goOn_file h.ordinary hget .creating
          apply Opens.file hleads
          by_contra hwrites
          exact hdenies ⟨hcheck, _, serial, mode, content, hleads, by simpa using hwrites⟩

/-! ## The directory of the temporary file -/

/-- The path of the directory in which a temporary file is made, before it is normalised. -/
def upperPath
    (path : Text) : Text :=
  if Path.dirName path = [] then Path.here else Path.dirName path

theorem scratchDirectory_eq
    (t : FileTree)
    (path : Text) :
    FileAct.scratchDirectory t path = Path.absolute t.workingPath (upperPath path) :=
  rfl

/-- What stands before the last component of a path leads where the names before its last name
lead. -/
theorem Admits.leadsTo_upperPath
    (hlinks : t.LinkFree)
    (h : t.Admits path directory name)
    (hcheck : FileFault.checkPath path = .ok ()) :
    t.LeadsTo (upperPath path) directory := by
  obtain ⟨hr, hlast, -, links, slash, hsteps⟩ := parentOf_eq_ok_iff.mp h.parentOf
  obtain ⟨hne, hshort, -⟩ := routeOf_eq_ok_iff.mp hr
  obtain ⟨-, -, -, hslash⟩ := lastOf_eq_name hlast
  obtain ⟨-, front, hnames, hfollow⟩ := hsteps.follow hlinks
  rw [List.append_nil] at hnames
  rw [← hnames] at hfollow
  have hnoSlash : path.getLast? ≠ some Path.slash := by
    simpa [Route.ofText] using hslash
  rcases Path.isComponent_or_exists_join hne hnoSlash with hc | ⟨base, c, hbase, hc, rfl⟩
  · have hupper : upperPath path = Path.here := by rw [upperPath, if_pos hc.dirName_eq_nil]
    have hfront : (Route.ofText path).names.dropLast = [] := by
      rw [Route.ofText, hc.components_eq]
      rfl
    have hstart : t.startOf (Route.ofText path) = t.startOf (Route.ofText Path.here) :=
      startOf_ofText_eq hc.isAbsolute_eq
    rw [hfront, hstart] at hfollow
    rw [hupper]
    refine ⟨⟨rfl, by decide, by decide⟩, ?_⟩
    have hhere : (Route.ofText Path.here).names = [Path.here] := by decide
    rw [hhere, follow_here]
    exact hfollow
  · obtain ⟨hdirNe, habsolute, hcomponents⟩ := hc.dirName_join_similar hbase
    have hupper : upperPath (Path.join base c) = Path.dirName (Path.join base c) := by
      rw [upperPath, if_neg hdirNe]
    have hbefore := Path.dirName_prefix (Path.join base c)
    have hfront : (Route.ofText (Path.join base c)).names.dropLast =
        (Route.ofText (Path.dirName (Path.join base c))).names := by
      rw [Route.ofText, Route.ofText, hcomponents, Path.components_join hc.isAbsolute_eq,
        hc.components_eq, List.map_append, List.map_singleton, List.dropLast_concat]
    have hstart : t.startOf (Route.ofText (Path.join base c)) =
        t.startOf (Route.ofText (Path.dirName (Path.join base c))) := by
      apply startOf_ofText_eq
      rw [habsolute, Path.isAbsolute_join hbase hc.isAbsolute_eq]
    rw [hfront, hstart] at hfollow
    rw [hupper]
    refine ⟨⟨checkPath_of_mem ?_, hdirNe, ?_⟩, hfollow⟩
    · intro d hd
      exact Or.inr ⟨_, hcheck, hbefore.subset hd⟩
    · exact Nat.lt_of_le_of_lt (FileName.length_le_of_prefix hbefore) hshort

/-- The paths of all temporary files that a path could need are short enough. -/
def HasRoom
    (t : FileTree)
    (path : Text) : Prop :=
  ∀ n ≤ t.entries.length,
    FileName.length (Path.join (FileAct.scratchDirectory t path) (scratchName n)) < pathLimit

/-- Where a path admits a file, a temporary one can be made. -/
theorem Admits.exists_makeScratch
    (hwf : t.WellFormed)
    (hlinks : t.LinkFree)
    (h : t.Admits path directory name)
    (hcheck : FileFault.checkPath path = .ok ())
    (hroom : t.HasRoom path) :
    ∃ s t₁, t.makeScratch (FileAct.scratchDirectory t path) = .ok (s, t₁) := by
  obtain ⟨k, hk, -, htaken⟩ := newScratchName_spec t directory
  have hfits := hroom k (le_length_entries htaken)
  have hupper := h.leadsTo_upperPath hlinks hcheck
  have hshort : FileName.length (Path.absolute t.workingPath (upperPath path)) < pathLimit := by
    refine Nat.lt_of_le_of_lt (FileName.length_le_of_prefix ?_) hfits
    exact (isComponent_scratchName k).isPrefix_join _
  have hleads := hupper.absolute hwf hshort
  rw [← scratchDirectory_eq] at hleads
  rw [← hk] at hfits
  exact ⟨_, _, makeScratch_spec hwf hleads hfits⟩

end FileTree

end Keybox

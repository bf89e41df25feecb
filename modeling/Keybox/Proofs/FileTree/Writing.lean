import Keybox.Proofs.FileTree.Files
import Keybox.Proofs.FileTree.Scratch
import Keybox.Proofs.FileTree.Steps

/-!
# Reading and writing

What reading and the two ways of writing do to a well-formed tree. A way of writing fails and leaves
every entry as it was, or makes one entry a file with the mode and the content and leaves all others
as they were. For plain writing this needs that no other file has the serial number, for atomic
writing that the temporary name was free. The entry is the one that the path opens (`Opens`) or the
one that its last name is given to (`Admits`).
-/

namespace Keybox

namespace FileTree

variable
  {t t' t₁ : FileTree}
  {place directory : Place}
  {name : Name}
  {path : Text}

/-! ## Files by their serial numbers -/

theorem map_onSerial_of_ne
    {e : Option Entry}
    {serial : Nat}
    {f : Nat → Bytes → Entry}
    (h : ∀ mode content, e ≠ some (.file serial mode content)) :
    e.map (Entry.onSerial serial f) = e := by
  cases e with
  | none =>
      rfl
  | some e =>
      cases e with
      | dir _ =>
          rfl
      | link _ =>
          rfl
      | file n mode content =>
          have hn : n ≠ serial := by
            rintro rfl
            exact h mode content rfl
          rw [Option.map_some, Entry.onSerial, if_neg hn]

/-- More content for an open file is seen at its place and nowhere else. -/
theorem get?_append_of_wellFormed
    (hwf : t.WellFormed)
    {serial mode : Nat}
    {old : Bytes}
    (hfile : t.get? place = some (.file serial mode old))
    (content : Bytes)
    (other : Place) :
    (t.append serial content).get? other =
      if other = place then some (.file serial mode (old ++ content)) else t.get? other := by
  rw [get?_append]
  split
  · next heq =>
    rw [heq, hfile, Option.map_some, Entry.onSerial, if_pos rfl]
  · next hne =>
    apply map_onSerial_of_ne
    intro mode' content' hother
    exact hne (hwf.unique place other serial mode old mode' content' hfile hother)

theorem get?_changeMode_of_wellFormed
    (hwf : t.WellFormed)
    {serial mode : Nat}
    {content : Bytes}
    (hfile : t.get? place = some (.file serial mode content))
    (mode' : Nat)
    (other : Place) :
    (t.changeMode serial mode').get? other =
      if other = place then some (.file serial mode' content) else t.get? other := by
  rw [get?_changeMode]
  split
  · next heq =>
    rw [heq, hfile, Option.map_some, Entry.onSerial, if_pos rfl]
  · next hne =>
    apply map_onSerial_of_ne
    intro mode' content' hother
    exact hne (hwf.unique place other serial mode content mode' content' hfile hother)

theorem becomes_append
    (hwf : t.WellFormed)
    {serial mode : Nat}
    {old : Bytes}
    (hfile : t.get? place = some (.file serial mode old))
    (content : Bytes) :
    t.Becomes place (.file serial mode (old ++ content)) (t.append serial content) :=
  ⟨get?_append_of_wellFormed hwf hfile content, rfl, Nat.le_refl _⟩

theorem becomes_changeMode
    (hwf : t.WellFormed)
    {serial mode : Nat}
    {content : Bytes}
    (hfile : t.get? place = some (.file serial mode content))
    (mode' : Nat) :
    t.Becomes place (.file serial mode' content) (t.changeMode serial mode') :=
  ⟨get?_changeMode_of_wellFormed hwf hfile mode', rfl, Nat.le_refl _⟩

theorem becomes_set
    (hplace : place ≠ [])
    (entry : Entry) :
    t.Becomes place entry (t.set place entry) :=
  ⟨get?_set t hplace entry, rfl, Nat.le_refl _⟩

theorem becomes_addFile
    (hplace : place ≠ [])
    (mode : Nat) :
    t.Becomes place (.file t.nextSerial mode []) (t.addFile place mode) :=
  ⟨get?_addFile t hplace mode, rfl, Nat.le_succ _⟩

/-- Of two changes at one place the later one counts. -/
theorem Becomes.trans
    {entry entry' : Entry}
    (h : t.Becomes place entry t₁)
    (h' : t₁.Becomes place entry' t') :
    t.Becomes place entry' t' := by
  refine ⟨?_, h'.workingDir.trans h.workingDir, Nat.le_trans h.nextSerial h'.nextSerial⟩
  intro other
  rw [h'.get]
  split
  · rfl
  · next hne => exact h.get_of_ne hne

/-- A file that keeps its serial number, or gets a new one, keeps a tree well-formed. -/
theorem WellFormed.becomes_file
    (hwf : t.WellFormed)
    (hdirectory : t.IsDir directory)
    {serial mode : Nat}
    {content : Bytes}
    (hb : t.Becomes (directory ++ [name]) (.file serial mode content) t')
    (hnew : ¬ t.IsDir (directory ++ [name]))
    (hserial : serial = t.nextSerial ∧ t.nextSerial < t'.nextSerial ∨
      ∃ old oldContent, t.get? (directory ++ [name]) = some (.file serial old oldContent)) :
    t'.WellFormed := by
  refine hwf.becomes hb hdirectory (fun hdir => absurd hdir hnew) ?_
  rintro _ _ _ ⟨⟩
  rcases hserial with ⟨rfl, hlt⟩ | ⟨old, oldContent, hold⟩
  · refine ⟨hlt, fun other mode' content' hother => ?_⟩
    exact absurd (hwf.fresh other _ mode' content' hother) (Nat.lt_irrefl _)
  · refine ⟨Nat.lt_of_lt_of_le (hwf.fresh _ _ _ _ hold) hb.nextSerial, ?_⟩
    intro other mode' content' hother
    exact hwf.unique _ _ _ _ _ _ _ hold hother

theorem Names.mono
    (h : t.Names path directory name)
    (hdirs : ∀ q, t.IsDir q → t'.IsDir q)
    (hworking : t'.workingDir = t.workingDir) :
    t'.Names path directory name := by
  obtain ⟨front, hnames, hfollow⟩ := h.follows
  have hstart : t'.startOf (Route.ofText path) = t.startOf (Route.ofText path) := by
    rw [startOf, startOf, hworking]
  refine ⟨h.isPath, h.isName, h.noSlash, front, hnames, ?_⟩
  rw [hstart]
  exact follow_mono hdirs hfollow

/-! ## Where files are opened -/

/-- The place of the file that a path opens for writing: a file that its owner may write, or one
that is yet to be made. -/
inductive Opens
    (t : FileTree)
    (path : Text) : Place → Prop
  | file
      {place : Place}
      {serial mode : Nat}
      {content : Bytes}
      (leads : t.resolve .creating path = .ok (.entry place (.file serial mode content)))
      (writes : ownerWrites mode = true) :
      Opens t path place
  | vacant
      {directory : Place}
      {name : Name}
      (leads : t.resolve .creating path = .ok (.vacant directory name)) :
      Opens t path (directory ++ [name])

/-- A walk that creates comes to a last name without a slash, of a file or of nothing. -/
theorem exists_steps_of_resolve
    (hwf : t.WellFormed)
    {target : Target}
    (h : t.resolve .creating path = .ok target)
    (hnotDir : ∀ place mode, target ≠ .entry place (.dir mode)) :
    ∃ links directory c, Ordinary c ∧ t.IsDir directory ∧
      t.Steps (t.firstStage path) ⟨links, directory, [c], false⟩ ∧
        (target = .vacant directory c ∧ t.get? (directory ++ [c]) = none ∨
          ∃ serial mode content,
            target = .entry (directory ++ [c]) (.file serial mode content) ∧
              t.get? (directory ++ [c]) = some (.file serial mode content)) := by
  obtain ⟨s', hsteps, hends⟩ := exists_ends_of_goOn (resolve_eq_ok_iff.mp h).2
  have hdirectory := hsteps.isDir hwf (isDir_startOf hwf _)
  cases hends with
  | arrived hfound =>
      obtain ⟨mode, hmode⟩ := hdirectory
      rw [hmode] at hfound
      obtain rfl := Option.some.inj hfound
      exact absurd rfl (hnotDir _ _)
  | file hc hfile =>
      exact ⟨_, _, _, hc, hdirectory, hsteps, Or.inr ⟨_, _, _, rfl, hfile⟩⟩
  | vacant hc hslash hnone =>
      obtain rfl := hslash rfl
      exact ⟨_, _, _, hc, hdirectory, hsteps, Or.inl ⟨rfl, hnone⟩⟩

theorem Opens.routeOf_eq
    (h : t.Opens path place) :
    routeOf path = .ok (Route.ofText path) := by
  cases h with
  | file hleads _ =>
      exact (resolve_eq_ok_iff.mp hleads).1
  | vacant hleads =>
      exact (resolve_eq_ok_iff.mp hleads).1

/-- A place that is opened is a name's in a directory, at the end of the path's steps. -/
theorem Opens.exists_steps
    (hwf : t.WellFormed)
    (h : t.Opens path place) :
    ∃ links directory c, place = directory ++ [c] ∧ Ordinary c ∧ t.IsDir directory ∧
      t.Steps (t.firstStage path) ⟨links, directory, [c], false⟩ := by
  cases h with
  | file hleads _ =>
      obtain ⟨links, directory, c, hc, hdirectory, hsteps, ⟨heq, -⟩ | ⟨_, _, _, heq, -⟩⟩ :=
        exists_steps_of_resolve hwf hleads (by rintro _ _ ⟨⟩)
      · cases heq
      · exact ⟨links, directory, c, (Target.entry.inj heq).1, hc, hdirectory, hsteps⟩
  | vacant hleads =>
      obtain ⟨links, directory, c, hc, hdirectory, hsteps, ⟨heq, -⟩ | ⟨_, _, _, heq, -⟩⟩ :=
        exists_steps_of_resolve hwf hleads (by rintro _ _ ⟨⟩)
      · obtain ⟨rfl, rfl⟩ := Target.vacant.inj heq
        exact ⟨links, _, _, rfl, hc, hdirectory, hsteps⟩
      · cases heq

/-- At a place that is opened there is nothing, or a file. -/
theorem Opens.target
    (hwf : t.WellFormed)
    (h : t.Opens path place) :
    t.get? place = none ∨ ∃ serial mode content,
      t.get? place = some (.file serial mode content) ∧ ownerWrites mode = true := by
  cases h with
  | file hleads hwrites =>
      exact Or.inr ⟨_, _, _, get?_of_resolve hleads, hwrites⟩
  | vacant hleads =>
      obtain ⟨_, _, _, _, _, _, ⟨heq, hnone⟩ | ⟨_, _, _, heq, -⟩⟩ :=
        exists_steps_of_resolve hwf hleads (by rintro _ _ ⟨⟩)
      · obtain ⟨rfl, rfl⟩ := Target.vacant.inj heq
        exact Or.inl hnone
      · cases heq

theorem Opens.not_isDir
    (hwf : t.WellFormed)
    (h : t.Opens path place) :
    ¬ t.IsDir place := by
  rcases h.target hwf with hnone | ⟨_, _, _, hfile, -⟩
  · exact not_isDir_of_none hnone
  · exact not_isDir_of_file hfile

theorem Names.opens
    (h : t.Names path directory name)
    (htarget : t.get? (directory ++ [name]) = none ∨ ∃ serial mode content,
      t.get? (directory ++ [name]) = some (.file serial mode content) ∧
        ownerWrites mode = true) :
    t.Opens path (directory ++ [name]) := by
  rcases htarget with hnone | ⟨serial, mode, content, hfile, hwrites⟩
  · exact .vacant (h.resolve_vacant hnone .creating)
  · exact .file (h.resolve_file hfile .creating) hwrites

/-- A file at a place that is opened keeps a tree well-formed. -/
theorem Opens.wellFormed
    (hwf : t.WellFormed)
    (h : t.Opens path place)
    {serial mode : Nat}
    {content : Bytes}
    (hb : t.Becomes place (.file serial mode content) t')
    (hserial : serial = t.nextSerial ∧ t.nextSerial < t'.nextSerial ∨
      ∃ old oldContent, t.get? place = some (.file serial old oldContent)) :
    t'.WellFormed := by
  obtain ⟨links, directory, c, rfl, -, hdirectory, -⟩ := h.exists_steps hwf
  exact hwf.becomes_file hdirectory hb (h.not_isDir hwf) hserial

/-- Opening for writing leaves an empty file, the one that was there or a new one. -/
theorem openEmpty_spec
    (hwf : t.WellFormed)
    (h : t.Opens path place)
    (openMode : Nat) :
    ∃ serial mode t', t.openEmpty path openMode = .ok (serial, t') ∧
      t.Becomes place (.file serial mode []) t' ∧ t'.WellFormed := by
  obtain ⟨links, directory, c, hplace, -, -, -⟩ := h.exists_steps hwf
  have hne : place ≠ [] := by simp [hplace]
  have hopens := h
  cases h with
  | file hleads hwrites =>
      rename_i serial mode content
      have hopen : t.openEmpty path openMode =
          .ok (serial, t.set place (.file serial mode [])) := by
        rw [openEmpty, hleads, ok_bind]
        dsimp only
        rw [if_pos hwrites]
      have hb := becomes_set (t := t) hne (.file serial mode [])
      exact ⟨_, _, _, hopen, hb,
        hopens.wellFormed hwf hb (Or.inr ⟨_, _, get?_of_resolve hleads⟩)⟩
  | vacant hleads =>
      rename_i upper last
      have hopen : t.openEmpty path openMode =
          .ok (t.nextSerial, t.addFile (upper ++ [last]) openMode) := by
        rw [openEmpty, hleads]
        rfl
      have hb := becomes_addFile (t := t) hne openMode
      exact ⟨_, _, _, hopen, hb, hopens.wellFormed hwf hb (Or.inl ⟨rfl, Nat.lt_succ_self _⟩)⟩

/-- Opening for writing fails if the path opens no place. -/
theorem openEmpty_error_or_opens
    (t : FileTree)
    (path : Text)
    (openMode : Nat) :
    (∃ errno, t.openEmpty path openMode = .error errno) ∨ ∃ place, t.Opens path place := by
  rw [openEmpty]
  cases hresolve : t.resolve .creating path with
  | error errno =>
      exact Or.inl ⟨errno, rfl⟩
  | ok target =>
      cases target with
      | vacant directory name =>
          exact Or.inr ⟨_, .vacant hresolve⟩
      | entry place entry =>
          cases entry with
          | dir mode =>
              exact Or.inl ⟨.isDirectory, rfl⟩
          | link aim =>
              exact Or.inl ⟨.isDirectory, rfl⟩
          | file serial mode content =>
              by_cases hwrites : ownerWrites mode = true
              · exact Or.inr ⟨place, .file hresolve hwrites⟩
              · refine Or.inl ⟨.noPermission, ?_⟩
                rw [ok_bind]
                dsimp only
                rw [if_neg hwrites]

/-! ## Where files are renamed to -/

/-- A path whose last name can be given to a file of its directory, instead of a file or a link or
as a new name. -/
structure Admits
    (t : FileTree)
    (path : Text)
    (directory : Place)
    (name : Name) : Prop where
  parentOf : t.parentOf path = .ok (directory, .name name false)
  fits : FileName.length name ≤ nameLimit
  notDir : ¬ t.IsDir (directory ++ [name])

theorem Admits.isDir
    (h : t.Admits path directory name) :
    t.IsDir directory :=
  (parentOf_eq_ok_iff.mp h.parentOf).2.2.1

theorem Admits.ordinary
    (h : t.Admits path directory name) :
    Ordinary name := by
  obtain ⟨-, hlast, -, -⟩ := parentOf_eq_ok_iff.mp h.parentOf
  obtain ⟨-, hhere, hup, -⟩ := lastOf_eq_name hlast
  exact ⟨hhere, hup, h.fits⟩

theorem Names.admits
    (h : t.Names path directory name)
    (hwf : t.WellFormed)
    (hnotDir : ¬ t.IsDir (directory ++ [name])) :
    t.Admits path directory name :=
  ⟨h.parentOf hwf, h.isName.fits, hnotDir⟩

/-- Renaming a file gives it the name that its new path admits. -/
theorem rename_spec
    {source : Place}
    {entry : Entry}
    (hwf : t.WellFormed)
    (h : t.Admits path directory name)
    (hparent : t.IsDir source.dropLast)
    (hsource : t.get? source = some entry) :
    t.rename source path = .ok ((t.erase source).set (directory ++ [name]) entry) := by
  have hprefix : (directory ++ [name]).isPrefixOf source.dropLast = false := by
    rw [Bool.eq_false_iff]
    intro hprefix
    obtain ⟨rest, hrest⟩ := List.isPrefixOf_iff_prefix.mp hprefix
    rw [← hrest] at hparent
    exact h.notDir (hwf.isDir_of_append rest hparent)
  rw [rename, h.parentOf, ok_bind]
  dsimp only
  rw [if_neg (Nat.not_lt.mpr h.fits), if_neg (by simp), if_neg (Bool.eq_false_iff.mp hprefix),
    hsource]
  cases htarget : t.get? (directory ++ [name]) with
  | none =>
      rfl
  | some e =>
      cases e with
      | dir mode =>
          exact absurd ⟨mode, htarget⟩ h.notDir
      | file _ _ _ =>
          rfl
      | link _ =>
          rfl

/-- Renaming fails if the path admits no file. -/
theorem rename_error_or_admits
    (t : FileTree)
    (source : Place)
    (path : Text) :
    (∃ errno, t.rename source path = .error errno) ∨ ∃ directory name,
      t.Admits path directory name := by
  rw [rename]
  cases hparent : t.parentOf path with
  | error errno =>
      exact Or.inl ⟨errno, rfl⟩
  | ok found =>
      obtain ⟨directory, last⟩ := found
      cases last with
      | special =>
          exact Or.inl ⟨.busy, rfl⟩
      | name name trailing =>
          rw [ok_bind]
          dsimp only
          split
          · exact Or.inl ⟨_, rfl⟩
          · next hfits =>
            split
            · exact Or.inl ⟨_, rfl⟩
            · next htrailing =>
              obtain rfl : trailing = false := by simpa using htrailing
              by_cases hdir : t.IsDir (directory ++ [name])
              · obtain ⟨mode, hmode⟩ := hdir
                rw [hmode]
                split
                · exact Or.inl ⟨_, rfl⟩
                · exact Or.inl ⟨.isDirectory, rfl⟩
              · exact Or.inr ⟨directory, name, hparent, Nat.le_of_not_lt hfits, hdir⟩

/-- Moving a file away from where nothing was before leaves nothing of it there. -/
theorem becomes_rename
    {u : FileTree}
    {source : Place}
    {entry filled : Entry}
    (hne : source ≠ [])
    (hplace : place ≠ [])
    (hfree : t.get? source = none)
    (hb : t.Becomes source filled u) :
    t.Becomes place entry ((u.erase source).set place entry) := by
  refine ⟨?_, hb.workingDir, hb.nextSerial⟩
  intro other
  rw [get?_set _ hplace, get?_erase _ hne]
  split
  · rfl
  · split
    · next heq => rw [heq, hfree]
    · next hother => exact hb.get_of_ne hother

/-! ## Temporary files -/

theorem isComponent_scratchName
    (n : Nat) :
    Path.IsComponent (scratchName n) := by
  refine ⟨?_, slash_notMem_scratchName n⟩
  simp [scratchName, lit]

/-- A temporary file that is new in a directory. -/
structure Makes
    (t : FileTree)
    (s : Scratch)
    (t' : FileTree) : Prop where
  named : ∃ directory name, s.place = directory ++ [name] ∧ t.IsDir directory
  free : t.get? s.place = none
  serial : s.serial = t.nextSerial
  adds : t' = t.addFile s.place 0o600

theorem makeScratch_spec
    (hwf : t.WellFormed)
    {parent : Text}
    (hparent : t.LeadsTo parent directory)
    (hshort : FileName.length (Path.join parent (t.newScratchName directory)) < pathLimit) :
    t.makeScratch parent =
      .ok (⟨Path.join parent (t.newScratchName directory),
          directory ++ [t.newScratchName directory], t.nextSerial⟩,
        t.addFile (directory ++ [t.newScratchName directory]) 0o600) := by
  rw [makeScratch, hparent.isPath.fileName, ok_bind, hparent.directoryAt hwf]
  dsimp only
  rw [if_neg (Nat.not_le.mpr hshort)]

theorem isDir_of_directoryAt
    {parent : Text}
    (h : t.directoryAt parent = .ok directory) :
    t.IsDir directory := by
  rw [directoryAt, bind_eq_ok_iff] at h
  obtain ⟨target, hresolve, h⟩ := h
  split at h
  · next place mode =>
    obtain rfl := Except.ok.inj h
    exact ⟨mode, get?_of_resolve hresolve⟩
  · cases h
  · cases h

theorem makes_of_makeScratch
    {parent : Text}
    {s : Scratch}
    (h : t.makeScratch parent = .ok (s, t')) :
    t.Makes s t' := by
  rw [makeScratch, bind_eq_ok_iff] at h
  obtain ⟨-, -, h⟩ := h
  split at h
  · cases h
  · next directory hdirectory =>
    dsimp only at h
    split at h
    · cases h
    · obtain ⟨rfl, rfl⟩ := Prod.mk.inj (Except.ok.inj h)
      obtain ⟨k, hk, hfree, -⟩ := newScratchName_spec t directory
      rw [← hk] at hfree
      exact ⟨⟨directory, _, rfl, isDir_of_directoryAt hdirectory⟩, hfree, rfl, rfl⟩

namespace Makes

variable
  {s : Scratch}

theorem place_ne_nil
    (h : t.Makes s t') :
    s.place ≠ [] := by
  obtain ⟨directory, name, hplace, -⟩ := h.named
  simp [hplace]

theorem isDir_dropLast
    (h : t.Makes s t') :
    t.IsDir s.place.dropLast := by
  obtain ⟨directory, name, hplace, hdirectory⟩ := h.named
  rwa [hplace, List.dropLast_concat]

/-- The temporary file is a change at its place, also when it is filled. -/
theorem becomes_append
    (h : t.Makes s t')
    (hwf : t.WellFormed)
    (content : Bytes) :
    t.Becomes s.place (.file t.nextSerial 0o600 content) (t'.append s.serial content) ∧
      (t'.append s.serial content).WellFormed := by
  obtain ⟨directory, name, hplace, hdirectory⟩ := h.named
  have hne := h.place_ne_nil
  have hfree := h.free
  rw [h.adds, h.serial]
  rw [hplace] at hne hfree ⊢
  have hb₁ : t.Becomes (directory ++ [name]) (.file t.nextSerial 0o600 [])
      (t.addFile (directory ++ [name]) 0o600) := becomes_addFile hne 0o600
  have hwf₁ := hwf.becomes_file hdirectory hb₁ (not_isDir_of_none hfree)
    (Or.inl ⟨rfl, Nat.lt_succ_self _⟩)
  have hb := hb₁.trans (FileTree.becomes_append hwf₁ hb₁.get_self content)
  exact ⟨hb, hwf.becomes_file hdirectory hb (not_isDir_of_none hfree)
    (Or.inl ⟨rfl, Nat.lt_succ_self _⟩)⟩

end Makes

/-- What admits a file does so while there is a temporary file, and the other way round. -/
theorem Becomes.admits_iff
    {serial mode : Nat}
    {content : Bytes}
    (hb : t.Becomes place (.file serial mode content) t')
    (hfree : t.get? place = none) :
    t'.Admits path directory name ↔ t.Admits path directory name := by
  have hways : t.WaysIn t' := hb.waysIn fun old hold => by
    rw [hfree] at hold
    cases hold
  have hback := hb.waysIn_of_file
  constructor
  · intro h
    exact ⟨parentOf_mono hback hb.workingDir.symm h.parentOf, h.fits,
      fun hdir => h.notDir (hways.isDir hdir)⟩
  · intro h
    exact ⟨parentOf_mono hways hb.workingDir h.parentOf, h.fits,
      fun hdir => h.notDir (hback.isDir hdir)⟩

/-! ## Trees with the same entries -/

/-- A tree with the entries of another one. -/
structure Unchanged
    (t t' : FileTree) : Prop where
  get : ∀ place, t'.get? place = t.get? place
  workingDir : t'.workingDir = t.workingDir
  nextSerial : t.nextSerial ≤ t'.nextSerial

theorem unchanged_refl
    (t : FileTree) :
    t.Unchanged t :=
  ⟨fun _ => rfl, rfl, Nat.le_refl _⟩

/-- A file that is taken away from where nothing was before leaves the entries as they were. -/
theorem Becomes.unchanged_erase
    {entry : Entry}
    (hb : t.Becomes place entry t')
    (hne : place ≠ [])
    (hfree : t.get? place = none) :
    t.Unchanged (t'.erase place) := by
  refine ⟨?_, hb.workingDir, hb.nextSerial⟩
  intro other
  rw [get?_erase _ hne]
  split
  · next heq => rw [heq, hfree]
  · next hother => exact hb.get_of_ne hother

end FileTree

namespace FileAct

open FileTree

variable
  {t : FileTree}
  {place directory : Place}
  {name : Name}
  {path : Text}

theorem run_append
    (serial : Nat)
    (content : Bytes)
    (t : FileTree) :
    (append serial content).run t = (.ok (), t.append serial content) :=
  rfl

theorem run_changeMode
    (serial mode : Nat)
    (t : FileTree) :
    (changeMode serial mode).run t = (.ok (), t.changeMode serial mode) :=
  rfl

/-! ## Reading -/

theorem run_read_file
    (hcheck : FileFault.checkPath path = .ok ())
    {serial mode : Nat}
    {content : Bytes}
    (hfile : t.resolve .reading path = .ok (.entry place (.file serial mode content)))
    (hreads : ownerReads mode = true) :
    (read path).run t = (.ok content, t) := by
  have hcontent : t.contentAt path = .ok content := by
    rw [contentAt, hfile, ok_bind]
    dsimp only
    rw [if_pos hreads]
  rw [read, run_onPath_eq_ok_iff, hcontent]
  exact ⟨hcheck, rfl⟩

theorem run_read_of_error
    (hcheck : FileFault.checkPath path = .ok ())
    {errno : Errno}
    (hcontent : t.contentAt path = .error errno) :
    (read path).run t = (.error (.system errno path none), t) := by
  apply run_onPath_of_error hcheck
  rw [hcontent]
  rfl

/-! ## Plain writing -/

theorem run_writePlain
    (hwf : t.WellFormed)
    (hcheck : FileFault.checkPath path = .ok ())
    (h : t.Opens path place)
    (mode openMode : Nat)
    (content : Bytes) :
    ∃ serial t', (writePlain path mode openMode content).run t = (.ok (), t') ∧
      t.Becomes place (.file serial mode content) t' ∧ t'.WellFormed := by
  obtain ⟨serial, old, t₁, hopen, hb₁, hwf₁⟩ := openEmpty_spec hwf h openMode
  have hrun₁ : (FileAct.openEmpty path openMode).run t = (.ok serial, t₁) :=
    run_onPath_eq_ok_iff.mpr ⟨hcheck, hopen⟩
  obtain ⟨links, directory, c, rfl, -, hdirectory, -⟩ := h.exists_steps hwf
  have hdirectory₁ := hb₁.isDir (fun hdir => absurd hdir (h.not_isDir hwf)) hdirectory
  have hb₂ := becomes_changeMode hwf₁ hb₁.get_self mode
  have hwf₂ := hwf₁.becomes_file hdirectory₁ hb₂ (not_isDir_of_file hb₁.get_self)
    (Or.inr ⟨_, _, hb₁.get_self⟩)
  have hdirectory₂ :=
    hb₂.isDir (fun hdir => absurd hdir (not_isDir_of_file hb₁.get_self)) hdirectory₁
  have hb₃ := becomes_append hwf₂ hb₂.get_self content
  have hwf₃ := hwf₂.becomes_file hdirectory₂ hb₃ (not_isDir_of_file hb₂.get_self)
    (Or.inr ⟨_, _, hb₂.get_self⟩)
  refine ⟨serial, _, ?_, (hb₁.trans hb₂).trans hb₃, hwf₃⟩
  rw [writePlain, run_bind_of_ok hrun₁, run_bind_of_ok (run_changeMode serial mode t₁), run_append]

/-- Plain writing fails and leaves the tree as it is, or the path is a file's and opens a place. -/
theorem run_writePlain_error_or
    (t : FileTree)
    (path : Text)
    (mode openMode : Nat)
    (content : Bytes) :
    (∃ fault, (writePlain path mode openMode content).run t = (.error fault, t)) ∨
      FileFault.checkPath path = .ok () ∧ ∃ place, t.Opens path place := by
  cases hcheck : FileFault.checkPath path with
  | error fault =>
      have hopen : (FileAct.openEmpty path openMode).run t = (.error fault, t) :=
        run_onPath_of_refused hcheck _ t
      exact Or.inl ⟨fault, by rw [writePlain, run_bind_of_error hopen]⟩
  | ok =>
      rcases openEmpty_error_or_opens t path openMode with ⟨errno, herror⟩ | hopens
      · have hopen : (FileAct.openEmpty path openMode).run t =
            (.error (.system errno path none), t) := run_onPath_of_error hcheck herror
        exact Or.inl ⟨_, by rw [writePlain, run_bind_of_error hopen]⟩
      · exact Or.inr ⟨rfl, hopens⟩

/-! ## Atomic writing -/

variable
  {s : Scratch}
  {t₁ : FileTree}

theorem run_writeAtomic_of_makes
    (hmake : t.makeScratch (scratchDirectory t path) = .ok (s, t₁))
    (content : Bytes) :
    (writeAtomic path content).run t =
      (tryCatch (renameScratch s path) fun fault => do
        dropScratch s
        throw fault).run (t₁.append s.serial content) := by
  have hrun : (ofStep fun t => t.makeScratch (scratchDirectory t path)).run t = (.ok s, t₁) :=
    run_ofStep_eq_ok_iff.mpr hmake
  rw [writeAtomic, run_bind_of_ok hrun, run_bind_of_ok (run_append s.serial content t₁)]

/-- Where a temporary file can be made and the path admits it, the file is there afterwards. -/
theorem run_writeAtomic
    (hwf : t.WellFormed)
    (hcheck : FileFault.checkPath path = .ok ())
    (h : t.Admits path directory name)
    (hmake : t.makeScratch (scratchDirectory t path) = .ok (s, t₁))
    (content : Bytes) :
    ∃ t', (writeAtomic path content).run t = (.ok (), t') ∧
      t.Becomes (directory ++ [name]) (.file t.nextSerial 0o600 content) t' ∧ t'.WellFormed := by
  have hmakes := makes_of_makeScratch hmake
  obtain ⟨hb, hwf₂⟩ := hmakes.becomes_append hwf content
  have hparent := hb.isDir (fun hdir => absurd hdir (not_isDir_of_none hmakes.free))
    hmakes.isDir_dropLast
  have hrename := rename_spec hwf₂ ((hb.admits_iff hmakes.free).mpr h) hparent hb.get_self
  have hb' : t.Becomes (directory ++ [name]) (.file t.nextSerial 0o600 content) _ :=
    becomes_rename hmakes.place_ne_nil (by simp) hmakes.free hb
  have hserial : t.nextSerial < ((t₁.append s.serial content).erase s.place).nextSerial := by
    rw [hmakes.adds]
    exact Nat.lt_succ_self _
  refine ⟨_, ?_, hb', hwf.becomes_file h.isDir hb' h.notDir (Or.inl ⟨rfl, hserial⟩)⟩
  rw [run_writeAtomic_of_makes hmake]
  apply run_tryCatch_of_ok
  rw [renameScratch, run_ofStep_eq_ok_iff, hcheck, ok_bind, hrename]
  rfl

/-- If the temporary file cannot be renamed, it is removed. -/
theorem run_writeAtomic_of_error
    {fault : FileFault}
    (hmake : t.makeScratch (scratchDirectory t path) = .ok (s, t₁))
    (content : Bytes)
    (hrename : (renameScratch s path).run (t₁.append s.serial content) =
      (.error fault, t₁.append s.serial content)) :
    (writeAtomic path content).run t =
      (.error fault, (t₁.append s.serial content).erase s.place) := by
  rw [run_writeAtomic_of_makes hmake, run_tryCatch_of_error hrename]
  rfl

theorem run_renameScratch_error_or
    (u : FileTree)
    (s : Scratch)
    (path : Text) :
    (∃ fault, (renameScratch s path).run u = (.error fault, u)) ∨
      FileFault.checkPath path = .ok () ∧ ∃ directory name, u.Admits path directory name := by
  cases hcheck : FileFault.checkPath path with
  | error fault =>
      refine Or.inl ⟨fault, ?_⟩
      rw [renameScratch, run_ofStep, hcheck]
      rfl
  | ok =>
      rcases rename_error_or_admits u s.place path with ⟨errno, herror⟩ | hadmits
      · refine Or.inl ⟨.system errno s.path (some path), ?_⟩
        rw [renameScratch, run_ofStep, hcheck, herror]
        rfl
      · exact Or.inr ⟨rfl, hadmits⟩

/-- Atomic writing fails and leaves all entries as they are, or a temporary file can be made and
the path, a file's, admits it. -/
theorem run_writeAtomic_error_or
    (hwf : t.WellFormed)
    (path : Text)
    (content : Bytes) :
    (∃ fault t', (writeAtomic path content).run t = (.error fault, t') ∧ t.Unchanged t') ∨
      FileFault.checkPath path = .ok () ∧ (∃ directory name, t.Admits path directory name) ∧
        ∃ s t₁, t.makeScratch (scratchDirectory t path) = .ok (s, t₁) := by
  cases hmake : t.makeScratch (scratchDirectory t path) with
  | error fault =>
      have hrun : (ofStep fun t => t.makeScratch (scratchDirectory t path)).run t =
          (.error fault, t) := by
        rw [run_ofStep, hmake]
      exact Or.inl ⟨fault, t, by rw [writeAtomic, run_bind_of_error hrun], t.unchanged_refl⟩
  | ok made =>
      obtain ⟨s, t₁⟩ := made
      have hmakes := makes_of_makeScratch hmake
      obtain ⟨hb, -⟩ := hmakes.becomes_append hwf content
      rcases run_renameScratch_error_or (t₁.append s.serial content) s path with
        ⟨fault, hrename⟩ | ⟨hcheck, directory, name, hadmits⟩
      · exact Or.inl ⟨fault, _, run_writeAtomic_of_error hmake content hrename,
          hb.unchanged_erase hmakes.place_ne_nil hmakes.free⟩
      · exact Or.inr ⟨hcheck, ⟨directory, name, (hb.admits_iff hmakes.free).mp hadmits⟩,
          s, t₁, rfl⟩

end FileAct

end Keybox

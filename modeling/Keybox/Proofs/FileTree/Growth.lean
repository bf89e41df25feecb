import Keybox.Proofs.FileTree.Directories

/-!
# Growing trees

Making directories, whether that succeeds or fails on the way, keeps all entries and adds no other
ones than directories to which beginnings of the path lead. One directory is the step; that any
number of missing ones come to the same follows by induction on how many there may be.
-/

namespace Keybox

namespace FileTree

/-- The place of a directory that a beginning of a path leads to. -/
def OnTheWay
    (t : FileTree)
    (path : Text)
    (place : Place) : Prop :=
  ∃ front mode, front <+: path ∧ t.resolve .reading front = .ok (.entry place (.dir mode))

/-- A tree that has the entries of another one and no other ones than directories on the way of a
path. -/
structure Grows
    (t : FileTree)
    (path : Text)
    (t' : FileTree) : Prop where
  kept : ∀ place entry, t.get? place = some entry → t'.get? place = some entry
  added : ∀ place entry, t.get? place = none → t'.get? place = some entry →
    (∃ mode, entry = .dir mode) ∧ t'.OnTheWay path place
  workingDir : t'.workingDir = t.workingDir
  nextSerial : t.nextSerial ≤ t'.nextSerial

variable
  {t t' t'' : FileTree}
  {path front : Text}
  {place : Place}

theorem OnTheWay.longer
    (h : t.OnTheWay front place)
    (hfront : front <+: path) :
    t.OnTheWay path place := by
  obtain ⟨before, mode, hbefore, hresolve⟩ := h
  exact ⟨before, mode, hbefore.trans hfront, hresolve⟩

theorem OnTheWay.mono
    (hways : t.WaysIn t')
    (hworking : t'.workingDir = t.workingDir)
    (h : t.OnTheWay path place) :
    t'.OnTheWay path place := by
  obtain ⟨before, mode, hbefore, hresolve⟩ := h
  exact ⟨before, mode, hbefore, resolve_dir_mono hways hworking hresolve⟩

namespace Grows

theorem waysIn
    (h : t.Grows path t') :
    t.WaysIn t' :=
  fun place entry hentry _ => h.kept place entry hentry

theorem longer
    (h : t.Grows front t')
    (hfront : front <+: path) :
    t.Grows path t' := by
  refine ⟨h.kept, ?_, h.workingDir, h.nextSerial⟩
  intro place entry hnone hentry
  obtain ⟨hdir, hway⟩ := h.added place entry hnone hentry
  exact ⟨hdir, hway.longer hfront⟩

theorem trans
    (h : t.Grows path t')
    (h' : t'.Grows path t'') :
    t.Grows path t'' := by
  refine ⟨?_, ?_, h'.workingDir.trans h.workingDir, Nat.le_trans h.nextSerial h'.nextSerial⟩
  · intro place entry hentry
    exact h'.kept place entry (h.kept place entry hentry)
  · intro place entry hnone hentry
    cases hmiddle : t'.get? place with
    | none =>
        exact h'.added place entry hmiddle hentry
    | some middle =>
        obtain rfl : middle = entry := by
          rw [h'.kept place middle hmiddle] at hentry
          exact Option.some.inj hentry
        obtain ⟨hdir, hway⟩ := h.added place middle hnone hmiddle
        exact ⟨hdir, hway.mono h'.waysIn h'.workingDir⟩

/-- What grew has no other files than before. -/
theorem get?_file
    (h : t.Grows path t')
    {serial mode : Nat}
    {content : Bytes}
    (hfile : t'.get? place = some (.file serial mode content)) :
    t.get? place = some (.file serial mode content) := by
  cases hbefore : t.get? place with
  | none =>
      obtain ⟨⟨_, heq⟩, -⟩ := h.added place _ hbefore hfile
      cases heq
  | some entry =>
      rw [h.kept place entry hbefore] at hfile
      exact hfile

end Grows

theorem Unchanged.grows
    (h : t.Unchanged t')
    (path : Text) :
    t.Grows path t' := by
  refine ⟨?_, ?_, h.workingDir, h.nextSerial⟩
  · intro place entry hentry
    rw [h.get, hentry]
  · intro place entry hnone hentry
    rw [h.get, hnone] at hentry
    cases hentry

/-! ## One directory -/

/-- An entry is made under a name that its directory lacks. -/
theorem makeEntry_eq_ok
    {entry : Entry}
    (h : t.makeEntry path entry = .ok t') :
    ∃ directory name slash, t.parentOf path = .ok (directory, .name name slash) ∧
      FileName.length name ≤ nameLimit ∧ t.get? (directory ++ [name]) = none ∧
        t' = t.set (directory ++ [name]) entry := by
  rw [makeEntry, bind_eq_ok_iff] at h
  obtain ⟨⟨directory, last⟩, hparent, h⟩ := h
  cases last with
  | special =>
      cases h
  | name name slash =>
      dsimp only at h
      split at h
      · cases h
      · next hfits =>
        refine ⟨directory, name, slash, hparent, Nat.le_of_not_lt hfits, ?_⟩
        split at h
        · cases h
        · next hnone => exact ⟨hnone, (Except.ok.inj h).symm⟩
        · next hnone _ =>
          split at h
          · cases h
          · exact ⟨hnone, (Except.ok.inj h).symm⟩

/-- The path of a directory that was made leads to it. -/
theorem grows_makeDirectory
    (hwf : t.WellFormed)
    {mode : Nat}
    (h : t.makeDirectory path mode = .ok t') :
    t.Grows path t' ∧ t'.WellFormed := by
  obtain ⟨directory, name, slash, hparent, hfits, hnone, rfl⟩ := makeEntry_eq_ok h
  have hne : directory ++ [name] ≠ [] := by simp
  have hb : t.Becomes (directory ++ [name]) (.dir mode) (t.set (directory ++ [name]) (.dir mode)) :=
    becomes_set hne _
  have hways := hb.waysIn fun old hold => by
    rw [hnone] at hold
    cases hold
  obtain ⟨-, hlast, hdirectory, -⟩ := parentOf_eq_ok_iff.mp hparent
  obtain ⟨-, hhere, hup, -⟩ := lastOf_eq_name hlast
  refine ⟨⟨?_, ?_, hb.workingDir, hb.nextSerial⟩, hwf.becomes_dir hdirectory hb⟩
  · intro place entry hentry
    rw [hb.get_of_ne, hentry]
    rintro rfl
    rw [hnone] at hentry
    cases hentry
  · intro place entry hmissing hentry
    rw [hb.get] at hentry
    split at hentry
    · next heq =>
      obtain rfl := Option.some.inj hentry
      subst heq
      refine ⟨⟨mode, rfl⟩, path, mode, List.prefix_rfl, ?_⟩
      refine resolve_of_parentOf (parentOf_mono hways hb.workingDir hparent) fun links => ?_
      rw [goOn_step (.dir ⟨hhere, hup, hfits⟩ hb.get_self) (Or.inr rfl)]
      exact goOn_arrived hb.get_self .reading
    · rw [hmissing] at hentry
      cases hentry

end FileTree

namespace FileAct

open FileTree

/-- An action that grows every tree on the way of a path, also when it fails. -/
def GrowsOn
    (act : FileAct Unit)
    (path : Text) : Prop :=
  ∀ t : FileTree, t.WellFormed → t.Grows path (act.run t).2 ∧ (act.run t).2.WellFormed

variable
  {path front : Text}
  {act : FileAct Unit}

theorem growsOn_of_same
    (h : ∀ t, (act.run t).2 = t) :
    GrowsOn act path := by
  intro t hwf
  rw [h]
  exact ⟨t.unchanged_refl.grows path, hwf⟩

theorem growsOn_makeDirectory
    (path : Text)
    (mode : Nat) :
    GrowsOn (makeDirectory path mode) path := by
  intro t hwf
  cases hcheck : FileFault.checkPath path with
  | error fault =>
      rw [makeDirectory, run_onPath_of_refused hcheck]
      exact ⟨t.unchanged_refl.grows path, hwf⟩
  | ok =>
      cases hmake : t.makeDirectory path mode with
      | error errno =>
          have hrun : (makeDirectory path mode).run t = (.error (.system errno path none), t) := by
            apply run_onPath_of_error hcheck
            rw [hmake]
            rfl
          rw [hrun]
          exact ⟨t.unchanged_refl.grows path, hwf⟩
      | ok t' =>
          have hrun : (makeDirectory path mode).run t = (.ok (), t') := by
            rw [makeDirectory, run_onPath_eq_ok_iff, hmake]
            exact ⟨hcheck, rfl⟩
          rw [hrun]
          exact grows_makeDirectory hwf hmake

/-- What is done about a directory that is there already leaves the tree as it is. -/
theorem snd_run_ensureDirectory
    (path : Text)
    (mode : Nat)
    (t : FileTree) :
    ((ensureDirectory path mode).run t).2 = ((makeDirectory path mode).run t).2 := by
  refine snd_run_tryCatch (fun fault t => ?_) (makeDirectory path mode) t
  rw [run_bind_of_ok (run_get t)]
  split <;> rfl

theorem snd_run_unlessThere
    (act : FileAct Unit)
    (t : FileTree) :
    ((unlessThere act).run t).2 = (act.run t).2 := by
  refine snd_run_tryCatch (fun fault t => ?_) act t
  split <;> rfl

theorem growsOn_ensureDirectory
    (path : Text)
    (mode : Nat) :
    GrowsOn (ensureDirectory path mode) path := by
  intro t hwf
  rw [snd_run_ensureDirectory]
  exact growsOn_makeDirectory path mode t hwf

theorem GrowsOn.unlessThere
    (h : GrowsOn act path) :
    GrowsOn (unlessThere act) path := by
  intro t hwf
  rw [snd_run_unlessThere]
  exact h t hwf

theorem GrowsOn.longer
    (h : GrowsOn act front)
    (hfront : front <+: path) :
    GrowsOn act path := by
  intro t hwf
  obtain ⟨hgrows, hwf'⟩ := h t hwf
  exact ⟨hgrows.longer hfront, hwf'⟩

theorem GrowsOn.bind
    {next : Unit → FileAct Unit}
    (h : GrowsOn act path)
    (hnext : GrowsOn (next ()) path) :
    GrowsOn (act >>= next) path := by
  intro t hwf
  have hact := h t hwf
  rw [run_bind]
  rcases hrun : act.run t with ⟨r, t'⟩
  rw [hrun] at hact
  cases r with
  | ok =>
      obtain ⟨hgrows, hwf'⟩ := hact
      obtain ⟨hgrows', hwf''⟩ := hnext t' hwf'
      exact ⟨hgrows.trans hgrows', hwf''⟩
  | error fault =>
      exact hact

theorem splitLast_begins
    (path : Text) :
    (splitLast path).1 <+: path := by
  rw [splitLast]
  split
  · dsimp only
    exact List.IsPrefix.trans (Path.dirName_prefix (Path.dirName path)) (Path.dirName_prefix path)
  · exact Path.dirName_prefix path

theorem growsOn_get
    {act : FileTree → FileAct Unit}
    (h : ∀ t, GrowsOn (act t) path) :
    GrowsOn (do let t ← get; act t) path := by
  intro t hwf
  rw [run_bind_of_ok (run_get t)]
  exact h t t hwf

/-- A property of actions and the paths they are for that passes from the part before the last
component to a path, and from actions to what is put together from them. -/
structure Descends
    (P : FileAct Unit → Text → Prop) : Prop where
  same : ∀ {act : FileAct Unit} (path : Text), (∀ t, (act.run t).2 = t) → P act path
  get : ∀ {act : FileTree → FileAct Unit} {path : Text},
    (∀ t, P (act t) path) → P (do let t ← get; act t) path
  bind : ∀ {act : FileAct Unit} {next : Unit → FileAct Unit} {path : Text},
    P act path → P (next ()) path → P (act >>= next) path
  unlessThere : ∀ {act : FileAct Unit} {path : Text}, P act path → P (unlessThere act) path
  lower : ∀ {act : FileAct Unit} {path : Text}, P act (splitLast path).1 → P act path

/-- What the making of one directory has, the making of those above it and then of the last one
has. -/
theorem Descends.makeEachWithin
    {P : FileAct Unit → Text → Prop}
    (hP : Descends P)
    {make : Text → Nat → FileAct Unit}
    (hmake : ∀ path mode, P (make path mode) path)
    (missing : Nat)
    (path : Text)
    (mode : Nat) :
    P (makeEachWithin make missing path mode) path := by
  induction missing generalizing path mode with
  | zero =>
      refine hP.get fun t => ?_
      split
      · exact hP.same path fun _ => rfl
      · exact hmake path mode
  | succ missing ih =>
      refine hP.get fun t => ?_
      split
      · refine hP.bind (hP.lower (hP.unlessThere (ih _ _))) ?_
        split
        · exact hP.same path fun _ => rfl
        · exact hmake path mode
      · exact hmake path mode

theorem descends_growsOn : Descends GrowsOn where
  same := fun _ h => growsOn_of_same h
  get := growsOn_get
  bind := GrowsOn.bind
  unlessThere := GrowsOn.unlessThere
  lower := fun h => h.longer (splitLast_begins _)

/-- Directories above a path are on its way, so making them and then the last one grows a tree on
the way of the path as making one does. -/
theorem growsOn_makeEachWithin
    {make : Text → Nat → FileAct Unit}
    (hmake : ∀ path mode, GrowsOn (make path mode) path)
    (missing : Nat)
    (path : Text)
    (mode : Nat) :
    GrowsOn (makeEachWithin make missing path mode) path :=
  descends_growsOn.makeEachWithin hmake missing path mode

theorem growsOn_ensureDirectories
    (path : Text)
    (mode : Nat) :
    GrowsOn (ensureDirectories path mode) path :=
  growsOn_makeEachWithin growsOn_ensureDirectory missingLimit path mode

end FileAct

end Keybox

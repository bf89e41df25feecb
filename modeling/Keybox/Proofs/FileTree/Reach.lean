import Keybox.Proofs.FileTree.LinkFree
import Keybox.Proofs.FileTree.Growth
import Keybox.Proofs.Path.Containment

/-!
# Places read off paths

Where there are no links the place of a path can be read off its names, without a look at the tree: a
parent takes away the name before it. A walk that gets anywhere gets there.

**Results.** In a tree without links the place that a path opens, admits a file at or leads to is the
one that is read off it. Making directories adds directories at places that are read off beginnings
of the path, and nothing else; this is so for one directory, and for any number of missing ones by
the induction on how many there may be.
-/

namespace Keybox

namespace Path

/-- A renaming of components that keeps the two special ones apart from all others keeps those that
stay below where they start. -/
theorem staysBelow_map
    {f : Text → Text}
    (hhere : ∀ c, f c = here ↔ c = here)
    (hup : ∀ c, f c = up ↔ c = up)
    (depth : Nat)
    (names : List Text) :
    staysBelow depth (names.map f) = staysBelow depth names := by
  induction names generalizing depth with
  | nil =>
      rfl
  | cons c rest ih =>
      rw [List.map_cons, staysBelow_cons, staysBelow_cons]
      simp only [hhere, hup, ih]

end Path

namespace FileTree

/-- Where names lead from a place if a parent takes away the name before it. -/
def reach
    (place : Place)
    (names : List Name) : Place :=
  (Path.cancel true place.reverse names).reverse

/-- The place that is read off a path. -/
def placeOf
    (t : FileTree)
    (path : Text) : Place :=
  reach (t.startOf (Route.ofText path)) (Route.ofText path).names

/-- A place that is read off a path or a beginning of it. -/
def Passes
    (t : FileTree)
    (path : Text)
    (place : Place) : Prop :=
  ∃ front, front <+: (Route.ofText path).names ∧
    place = reach (t.startOf (Route.ofText path)) front

variable
  {t t' t'' : FileTree}
  {place q directory : Place}
  {names front : List Name}
  {name c : Name}
  {path upper : Text}

/-! ## Names -/

theorem reach_append
    (place : Place)
    (front back : List Name) :
    reach place (front ++ back) = reach (reach place front) back := by
  rw [reach, reach, reach, List.reverse_reverse, Path.cancel_names_append]

theorem reach_concat
    (hhere : c ≠ Path.here)
    (hup : c ≠ Path.up)
    (place : Place)
    (front : List Name) :
    reach place (front ++ [c]) = reach place front ++ [c] := by
  rw [reach, reach, Path.cancel_concat hhere hup, List.reverse_cons]

theorem reach_nil
    (place : Place) :
    reach place [] = place := by
  rw [reach, Path.cancel, List.reverse_reverse]

/-- Names that stay below a place lead to one below it. -/
theorem prefix_reach
    (h : Path.staysBelow 0 names = true)
    (place : Place) :
    place <+: reach place names := by
  have hcancel : Path.cancel true place.reverse names =
      Path.cancel true [] names ++ place.reverse :=
    Path.cancel_of_staysBelow [] h List.not_mem_nil true place.reverse
  rw [reach, hcancel, List.reverse_append, List.reverse_reverse]
  exact List.prefix_append _ _

theorem reach_cons
    (place : Place)
    (c : Name)
    (rest : List Name) :
    reach place (c :: rest) = reach (reach place [c]) rest :=
  reach_append place [c] rest

theorem reach_singleton
    (hhere : c ≠ Path.here)
    (hup : c ≠ Path.up)
    (place : Place) :
    reach place [c] = place ++ [c] := by
  have hname := reach_concat hhere hup place []
  rwa [List.nil_append, reach_nil] at hname

theorem reach_ordinary
    (h : ∀ c ∈ names, c ≠ Path.here ∧ c ≠ Path.up)
    (place : Place) :
    reach place names = place ++ names := by
  induction names generalizing place with
  | nil =>
      rw [reach_nil, List.append_nil]
  | cons c rest ih =>
      obtain ⟨hhere, hup⟩ := h c List.mem_cons_self
      rw [reach_cons, reach_singleton hhere hup, ih (fun d hd => h d (List.mem_cons_of_mem c hd)),
        List.append_assoc, List.singleton_append]

theorem reach_here
    (place : Place) :
    reach place [Path.here] = place := by
  rw [reach, Path.cancel_cons, if_pos rfl, Path.cancel, List.reverse_reverse]

theorem reach_up
    (hplace : Path.up ∉ place) :
    reach place [Path.up] = place.dropLast := by
  rw [reach, Path.cancel_cons, if_neg (by decide), if_pos rfl]
  rcases List.eq_nil_or_concat place with rfl | ⟨before, d, rfl⟩
  · rfl
  · rw [List.concat_eq_append, List.mem_append, List.mem_singleton, not_or] at hplace
    rw [List.concat_eq_append, List.reverse_append, List.reverse_singleton,
      List.singleton_append, List.dropLast_concat]
    dsimp only
    rw [if_neg (Ne.symm hplace.2), Path.cancel, List.reverse_reverse]

/-- Names that are followed lead to the place that is read off them. -/
theorem eq_reach_of_follow
    (hplace : Path.up ∉ place)
    (h : t.follow place names = some q) :
    q = reach place names := by
  induction names generalizing place with
  | nil =>
      rw [reach_nil]
      exact (Option.some.inj h).symm
  | cons c rest ih =>
      rw [reach_cons]
      rcases follow_cons_cases h with ⟨rfl, hrest⟩ | ⟨rfl, hrest⟩ | ⟨hhere, hup, -, -, hrest⟩
      · rw [reach_here]
        exact ih hplace hrest
      · rw [reach_up hplace]
        exact ih (fun hmem => hplace ((List.dropLast_prefix place).subset hmem)) hrest
      · rw [reach_singleton hhere hup]
        exact ih (by simpa [Ne.symm hup] using hplace) hrest

/-! ## Paths -/

theorem up_notMem_startOf
    (hwf : t.WellFormed)
    (r : Route) :
    Path.up ∉ t.startOf r := by
  rw [startOf]
  split
  · exact List.not_mem_nil
  · exact fun hmem => (hwf.workingNames _ hmem).notUp rfl

theorem eq_reach_of_steps
    (hwf : t.WellFormed)
    (hlinks : t.LinkFree)
    {links links' : Nat}
    {slash slash' : Bool}
    {r : Route}
    {back : List Name}
    (h : t.Steps ⟨links, t.startOf r, names, slash⟩ ⟨links', q, back, slash'⟩) :
    ∃ front, names = front ++ back ∧ q = reach (t.startOf r) front := by
  obtain ⟨-, front, hnames, hfollow⟩ := h.follow hlinks
  exact ⟨front, hnames, eq_reach_of_follow (up_notMem_startOf hwf r) hfollow⟩

theorem placeOf_of_parentOf
    (hwf : t.WellFormed)
    (hlinks : t.LinkFree)
    {slash : Bool}
    (h : t.parentOf path = .ok (directory, .name name slash)) :
    t.placeOf path = directory ++ [name] := by
  obtain ⟨-, hlast, -, links, slash', hsteps⟩ := parentOf_eq_ok_iff.mp h
  obtain ⟨hnames, hhere, hup, -⟩ := lastOf_eq_name hlast
  obtain ⟨front, hfront, rfl⟩ := eq_reach_of_steps hwf hlinks hsteps
  rw [List.append_nil] at hfront
  rw [placeOf, hnames, reach_concat hhere hup, hfront]

theorem Admits.placeOf_eq
    (hwf : t.WellFormed)
    (hlinks : t.LinkFree)
    (h : t.Admits path directory name) :
    t.placeOf path = directory ++ [name] :=
  placeOf_of_parentOf hwf hlinks h.parentOf

theorem Opens.placeOf_eq
    (hwf : t.WellFormed)
    (hlinks : t.LinkFree)
    (h : t.Opens path place) :
    t.placeOf path = place := by
  obtain ⟨links, directory, c, rfl, hc, -, hsteps⟩ := h.exists_steps hwf
  obtain ⟨front, hnames, rfl⟩ := eq_reach_of_steps hwf hlinks hsteps
  rw [placeOf, hnames, reach_concat hc.notHere hc.notUp]

theorem placeOf_of_directoryAt
    (hwf : t.WellFormed)
    (hlinks : t.LinkFree)
    (h : t.directoryAt path = .ok directory) :
    t.placeOf path = directory := by
  rw [directoryAt, bind_eq_ok_iff] at h
  obtain ⟨target, hresolve, h⟩ := h
  split at h
  · obtain rfl := Except.ok.inj h
    obtain ⟨s', hsteps, hends⟩ := exists_ends_of_goOn (resolve_eq_ok_iff.mp hresolve).2
    cases hends with
    | arrived _ =>
        obtain ⟨front, hnames, rfl⟩ := eq_reach_of_steps hwf hlinks hsteps
        rw [placeOf, hnames, List.append_nil]
  · cases h
  · cases h

theorem directoryAt_of_makeScratch
    {s : Scratch}
    (h : t.makeScratch path = .ok (s, t')) :
    ∃ directory name, t.directoryAt path = .ok directory ∧ s.place = directory ++ [name] := by
  rw [makeScratch, bind_eq_ok_iff] at h
  obtain ⟨-, -, h⟩ := h
  split at h
  · cases h
  · next directory hdirectory =>
    dsimp only at h
    split at h
    · cases h
    · cases h
      exact ⟨directory, _, hdirectory, rfl⟩

/-- The normal form of a path is for the same place. -/
theorem placeOf_absolute
    (hwf : t.WellFormed)
    (path : Text) :
    t.placeOf (Path.absolute t.workingPath path) = t.placeOf path := by
  have hroot : t.placeOf (Path.absolute t.workingPath path) =
      reach [] ((Path.components (Path.join t.workingPath path)).map FileName.settled) := by
    rw [placeOf, startOf_absolute, names_absolute, reach_ordinary, List.nil_append, reach,
      List.reverse_nil]
    intro c hc
    exact Path.ordinary_of_mem_cancel (by simp) (List.mem_reverse.mp hc)
  rw [hroot, placeOf, startOf, Route.ofText]
  dsimp only
  split
  · next habsolute =>
    rw [Path.join, if_pos habsolute]
  · next habsolute =>
    have hworking : reach [] (t.workingDir.map FileName.settled) = t.workingDir := by
      rw [List.map_congr_left fun c hc => (hwf.workingNames c hc).settled, List.map_id',
        reach_ordinary, List.nil_append]
      exact fun c hc => ⟨(hwf.workingNames c hc).notHere, (hwf.workingNames c hc).notUp⟩
    rw [Path.components_join (by simpa using habsolute), components_workingPath hwf,
      List.map_append, reach_append, hworking]

theorem passes_placeOf
    (t : FileTree)
    (path : Text) :
    t.Passes path (t.placeOf path) :=
  ⟨_, List.prefix_rfl, rfl⟩

/-- A path whose names are the first of another's, from the same start. -/
structure IsUpper
    (upper path : Text) : Prop where
  absolute : Path.isAbsolute upper = Path.isAbsolute path
  components : Path.components upper <+: Path.components path

theorem Passes.longer
    (h : t.Passes upper place)
    (hupper : IsUpper upper path) :
    t.Passes path place := by
  obtain ⟨front, hfront, rfl⟩ := h
  refine ⟨front, hfront.trans (hupper.components.map FileName.settled), ?_⟩
  rw [startOf_ofText_eq hupper.absolute]

theorem isUpper_dirName
    (path : Text) :
    IsUpper (Path.dirName path) path :=
  ⟨Path.isAbsolute_dirName path, Path.components_dirName_prefix path⟩

theorem IsUpper.trans
    {lower : Text}
    (h : IsUpper upper path)
    (h' : IsUpper path lower) :
    IsUpper upper lower :=
  ⟨h.absolute.trans h'.absolute, h.components.trans h'.components⟩

theorem isUpper_splitLast
    (path : Text) :
    IsUpper (FileAct.splitLast path).1 path := by
  rw [FileAct.splitLast]
  split
  · dsimp only
    exact (isUpper_dirName _).trans (isUpper_dirName path)
  · exact isUpper_dirName path

/-! ## Making directories -/

/-- A tree that has the entries of another one, and new directories where a path passes. -/
structure Paves
    (t : FileTree)
    (path : Text)
    (t' : FileTree) : Prop where
  get : ∀ place, t'.get? place = t.get? place ∨
    t.get? place = none ∧ (∃ mode, t'.get? place = some (.dir mode)) ∧ t.Passes path place
  workingDir : t'.workingDir = t.workingDir

theorem placeOf_congr
    (hworking : t'.workingDir = t.workingDir)
    (path : Text) :
    t'.placeOf path = t.placeOf path := by
  rw [placeOf, placeOf, startOf, startOf, hworking]

theorem passes_congr
    (hworking : t'.workingDir = t.workingDir) :
    t'.Passes path place ↔ t.Passes path place := by
  rw [Passes, Passes, startOf, startOf, hworking]

namespace Paves

theorem refl
    (t : FileTree)
    (path : Text) :
    t.Paves path t :=
  ⟨fun _ => .inl rfl, rfl⟩

theorem trans
    (h : t.Paves path t')
    (h' : t'.Paves path t'') :
    t.Paves path t'' := by
  refine ⟨fun place => ?_, h'.workingDir.trans h.workingDir⟩
  rcases h.get place with hsame | ⟨hnone, ⟨mode, hdir⟩, hpasses⟩
  · rcases h'.get place with hsame' | ⟨hnone', hdir', hpasses'⟩
    · exact .inl (hsame'.trans hsame)
    · exact .inr ⟨hsame ▸ hnone', hdir', (passes_congr h.workingDir).mp hpasses'⟩
  · rcases h'.get place with hsame' | ⟨hnone', -, -⟩
    · exact .inr ⟨hnone, ⟨mode, hsame'.trans hdir⟩, hpasses⟩
    · rw [hdir] at hnone'
      cases hnone'

theorem longer
    (h : t.Paves upper t')
    (hupper : IsUpper upper path) :
    t.Paves path t' :=
  ⟨fun place => (h.get place).imp_right fun ⟨hnone, hdir, hpasses⟩ =>
    ⟨hnone, hdir, hpasses.longer hupper⟩, h.workingDir⟩

theorem linkFree
    (h : t.Paves path t')
    (hlinks : t.LinkFree) :
    t'.LinkFree := by
  intro place target htarget
  rcases h.get place with hsame | ⟨-, ⟨mode, hdir⟩, -⟩
  · exact hlinks place target (hsame ▸ htarget)
  · rw [hdir] at htarget
    cases htarget

end Paves

theorem paves_makeDirectory
    (hwf : t.WellFormed)
    (hlinks : t.LinkFree)
    {mode : Nat}
    (h : t.makeDirectory path mode = .ok t') :
    t.Paves path t' := by
  obtain ⟨directory, name, slash, hparent, -, hnone, rfl⟩ := makeEntry_eq_ok h
  refine ⟨fun place => ?_, rfl⟩
  rw [get?_set t (by simp)]
  split
  · next heq =>
    subst heq
    refine .inr ⟨hnone, ⟨mode, rfl⟩, ?_⟩
    rw [← placeOf_of_parentOf hwf hlinks hparent]
    exact t.passes_placeOf path
  · exact .inl rfl

end FileTree

namespace FileAct

open FileTree

/-- An action that paves every tree without links, also when it fails. -/
def PavesOn
    (act : FileAct Unit)
    (path : Text) : Prop :=
  ∀ t : FileTree, t.WellFormed → t.LinkFree →
    t.Paves path (act.run t).2 ∧ (act.run t).2.WellFormed

theorem pavesOn_makeDirectory
    (path : Text)
    (mode : Nat) :
    PavesOn (makeDirectory path mode) path := by
  intro t hwf hlinks
  refine ⟨?_, (growsOn_makeDirectory path mode t hwf).2⟩
  rcases hrun : (makeDirectory path mode).run t with ⟨r, t'⟩
  cases r with
  | error fault =>
      obtain rfl := tree_of_run_ofStep_error hrun
      exact .refl _ path
  | ok =>
      obtain ⟨-, hstep⟩ := run_onPath_eq_ok_iff.mp hrun
      obtain ⟨made, hmake, heq⟩ := map_eq_ok_iff.mp hstep
      obtain ⟨-, rfl⟩ := Prod.mk.inj heq
      exact paves_makeDirectory hwf hlinks hmake

theorem pavesOn_ensureDirectory
    (path : Text)
    (mode : Nat) :
    PavesOn (ensureDirectory path mode) path := by
  intro t hwf hlinks
  rw [snd_run_ensureDirectory]
  exact pavesOn_makeDirectory path mode t hwf hlinks

theorem descends_pavesOn : Descends PavesOn where
  same := by
    intro act path h t hwf hlinks
    rw [h]
    exact ⟨.refl t path, hwf⟩
  get := by
    intro act path h t hwf hlinks
    rw [run_bind_of_ok (run_get t)]
    exact h t t hwf hlinks
  bind := by
    intro act next path h hnext t hwf hlinks
    have hact := h t hwf hlinks
    rw [run_bind]
    rcases hrun : act.run t with ⟨r, t'⟩
    rw [hrun] at hact
    obtain ⟨hpaves, hwf'⟩ := hact
    cases r with
    | ok =>
        obtain ⟨hpaves', hwf''⟩ := hnext t' hwf' (hpaves.linkFree hlinks)
        exact ⟨hpaves.trans hpaves', hwf''⟩
    | error fault =>
        exact ⟨hpaves, hwf'⟩
  unlessThere := by
    intro act path h t hwf hlinks
    rw [snd_run_unlessThere]
    exact h t hwf hlinks
  lower := by
    intro act path h t hwf hlinks
    obtain ⟨hpaves, hwf'⟩ := h t hwf hlinks
    exact ⟨hpaves.longer (isUpper_splitLast path), hwf'⟩

theorem pavesOn_ensureDirectories
    (path : Text)
    (mode : Nat) :
    PavesOn (ensureDirectories path mode) path :=
  descends_pavesOn.makeEachWithin pavesOn_ensureDirectory missingLimit path mode

end FileAct

end Keybox

import Keybox.FileTree.Operations
import Keybox.Proofs.Except
import Keybox.Proofs.FileTree.WellFormed

/-!
# Where paths lead

A walk that meets no link goes from directory to directory. `follow` says where it gets to, and the
walks of all operations are described by it: a path that leads to a directory, and a path that names
an entry of one, whether the entry is there or not. Both are built from a base directory by joining
names, and both can be read off the normal form of the path as well.
-/

namespace Keybox

namespace FileTree

/-- The directory that names lead to from a place, through directories only. -/
def follow (t : FileTree) : Place → List Name → Option Place
  | place, [] => some place
  | place, c :: rest =>
    if c = Path.here then follow t place rest
    else if c = Path.up then follow t place.dropLast rest
    else if FileName.length c > nameLimit then none
    else
      match t.get? (place ++ [c]) with
      | some (.dir _) => follow t (place ++ [c]) rest
      | _ => none

variable
  {t t' : FileTree}
  {place directory : Place}

/-! ## One name -/

section

variable {rest : List Name} {c : Name}

theorem follow_here :
    t.follow place (Path.here :: rest) = t.follow place rest := by
  rw [follow, if_pos rfl]

theorem follow_up :
    t.follow place (Path.up :: rest) = t.follow place.dropLast rest := by
  rw [follow, if_neg (by decide), if_pos rfl]

theorem follow_dir
    (hhere : c ≠ Path.here)
    (hup : c ≠ Path.up)
    (hfits : FileName.length c ≤ nameLimit)
    (hdir : t.IsDir (place ++ [c])) :
    t.follow place (c :: rest) = t.follow (place ++ [c]) rest := by
  obtain ⟨mode, hmode⟩ := hdir
  rw [follow, if_neg hhere, if_neg hup, if_neg (Nat.not_lt.mpr hfits), hmode]

theorem follow_name
    (hc : FileName.IsName c)
    (hdir : t.IsDir (place ++ [c]))
    (rest : List Name) :
    t.follow place (c :: rest) = t.follow (place ++ [c]) rest :=
  follow_dir hc.notHere hc.notUp hc.fits hdir

/-- The first name is a special one, or the name of a directory. -/
theorem follow_cons_cases
    {q : Place}
    (h : t.follow place (c :: rest) = some q) :
    (c = Path.here ∧ t.follow place rest = some q) ∨
      (c = Path.up ∧ t.follow place.dropLast rest = some q) ∨
      (c ≠ Path.here ∧ c ≠ Path.up ∧ FileName.length c ≤ nameLimit ∧
        t.IsDir (place ++ [c]) ∧ t.follow (place ++ [c]) rest = some q) := by
  rw [follow] at h
  split at h
  · next hhere => exact Or.inl ⟨hhere, h⟩
  · next hhere =>
    split at h
    · next hup => exact Or.inr (Or.inl ⟨hup, h⟩)
    · next hup =>
      split at h
      · cases h
      · next hfits =>
        split at h
        · next mode hmode =>
          exact Or.inr (Or.inr ⟨hhere, hup, Nat.le_of_not_lt hfits, ⟨mode, hmode⟩, h⟩)
        · cases h

end

/-! ## Many names -/

theorem follow_append
    (t : FileTree)
    (place : Place)
    (front back : List Name) :
    t.follow place (front ++ back) = (t.follow place front).bind fun q => t.follow q back := by
  induction front generalizing place with
  | nil =>
      rfl
  | cons c rest ih =>
      rw [List.cons_append, follow, follow]
      split
      · exact ih place
      · split
        · exact ih place.dropLast
        · split
          · rfl
          · split
            · exact ih (place ++ [c])
            · rfl

/-- In a well-formed tree the names lead from a directory to a directory. -/
theorem isDir_of_follow
    (h : t.WellFormed)
    {names : List Name}
    {q : Place}
    (hplace : t.IsDir place)
    (hfollow : t.follow place names = some q) :
    t.IsDir q := by
  induction names generalizing place with
  | nil =>
      rw [← Option.some.inj hfollow]
      exact hplace
  | cons c rest ih =>
      rcases follow_cons_cases hfollow with ⟨-, hrest⟩ | ⟨-, hrest⟩ | ⟨-, -, -, hdir, hrest⟩
      · exact ih hplace hrest
      · exact ih (h.dropLast hplace) hrest
      · exact ih hdir hrest

/-- A tree that has all the directories of another leads to the same places. -/
theorem follow_mono
    (h : ∀ q, t.IsDir q → t'.IsDir q)
    {names : List Name}
    {q : Place}
    (hfollow : t.follow place names = some q) :
    t'.follow place names = some q := by
  induction names generalizing place with
  | nil =>
      exact hfollow
  | cons c rest ih =>
      rcases follow_cons_cases hfollow with
        ⟨rfl, hrest⟩ | ⟨rfl, hrest⟩ | ⟨hhere, hup, hfits, hdir, hrest⟩
      · rw [follow_here]
        exact ih hrest
      · rw [follow_up]
        exact ih hrest
      · rw [follow_dir hhere hup hfits (h _ hdir)]
        exact ih hrest

/-- A place whose names can be written in a path is reached by them from the root. -/
theorem follow_place
    (h : t.WellFormed)
    {names : Place}
    (hnames : ∀ c ∈ names, FileName.IsName c)
    (hdir : t.IsDir (place ++ names)) :
    t.follow place names = some (place ++ names) := by
  induction names generalizing place with
  | nil =>
      rw [List.append_nil]
      rfl
  | cons c rest ih =>
      have hsplit : place ++ c :: rest = (place ++ [c]) ++ rest := by simp
      rw [hsplit] at hdir ⊢
      rw [follow_name (hnames c (by simp)) (h.isDir_of_append rest hdir)]
      exact ih (fun d hd => hnames d (List.mem_cons_of_mem c hd)) hdir

/-! ## Cancelled parents -/

theorem follow_singleton_eq
    {c : Name}
    (hhere : c ≠ Path.here)
    (hup : c ≠ Path.up)
    {q : Place}
    (hfollow : t.follow place [c] = some q) :
    q = place ++ [c] := by
  rcases follow_cons_cases hfollow with ⟨heq, -⟩ | ⟨heq, -⟩ | ⟨-, -, -, -, hrest⟩
  · exact absurd heq hhere
  · exact absurd heq hup
  · exact (Option.some.inj hrest).symm

/-- Cancelling a parent and the name before it does not change where names lead from the root. The
names kept so far are the place that is reached. -/
theorem follow_cancel
    {done names : List Name}
    {q : Place}
    (hdone : ∀ c ∈ done, c ≠ Path.here ∧ c ≠ Path.up)
    (hreached : t.follow [] done.reverse = some done.reverse)
    (hfollow : t.follow done.reverse names = some q) :
    t.follow [] (Path.cancel true done names).reverse = some q := by
  induction names generalizing done with
  | nil =>
      rw [Path.cancel, hreached]
      exact hfollow
  | cons c rest ih =>
      have hsteps := follow_append t done.reverse [c] rest
      rw [List.singleton_append, hfollow] at hsteps
      rw [Path.cancel_cons]
      by_cases hhere : c = Path.here
      · rw [if_pos hhere]
        rw [hhere, follow_here] at hfollow
        exact ih hdone hreached hfollow
      · rw [if_neg hhere]
        by_cases hup : c = Path.up
        · rw [if_pos hup]
          rw [hup, follow_up] at hfollow
          cases done with
          | nil =>
              exact ih hdone rfl hfollow
          | cons d ds =>
              obtain ⟨hdHere, hdUp⟩ := hdone d (by simp)
              rw [List.reverse_cons] at hreached hfollow
              rw [List.dropLast_concat] at hfollow
              rw [follow_append, Option.bind_eq_some_iff] at hreached
              obtain ⟨before, hbefore, hlast⟩ := hreached
              have heq := follow_singleton_eq hdHere hdUp hlast
              obtain ⟨rfl, -⟩ := List.append_inj' heq rfl
              dsimp only
              rw [if_neg hdUp]
              exact ih (fun e he => hdone e (List.mem_cons_of_mem d he)) hbefore hfollow
        · rw [if_neg hup]
          obtain ⟨next, hnext, hrest⟩ := Option.bind_eq_some_iff.mp hsteps.symm
          obtain rfl := follow_singleton_eq hhere hup hnext
          have hdone' : ∀ e ∈ c :: done, e ≠ Path.here ∧ e ≠ Path.up := by
            intro e he
            rcases List.mem_cons.mp he with rfl | he
            · exact ⟨hhere, hup⟩
            · exact hdone e he
          apply ih hdone'
          · rw [List.reverse_cons, follow_append, hreached]
            exact hnext
          · rw [List.reverse_cons]
            exact hrest

/-! ## Walks -/

variable
  {purpose : Purpose}
  {jump : Place → Route → Except Errno Target}
  {trailing : Bool}
  {front back names : List Name}
  {q : Place}
  {c : Name}

/-- A walk is what it is between links. -/
theorem walk_eq
    (t : FileTree)
    (purpose : Purpose)
    (links : Nat)
    (place : Place)
    (r : Route) :
    ∃ jump, t.walk purpose links place r = t.walkWith purpose jump r.trailing place r.names := by
  cases links with
  | zero =>
      exact ⟨_, by rw [walk]⟩
  | succ links =>
      exact ⟨_, by rw [walk]⟩

theorem walkWith_here :
    t.walkWith purpose jump trailing place (Path.here :: names) =
      t.walkWith purpose jump trailing place names := by
  rw [walkWith, if_pos rfl]

theorem walkWith_up :
    t.walkWith purpose jump trailing place (Path.up :: names) =
      t.walkWith purpose jump trailing place.dropLast names := by
  rw [walkWith, if_neg (by decide), if_pos rfl]

theorem walkWith_dir
    (hhere : c ≠ Path.here)
    (hup : c ≠ Path.up)
    (hfits : FileName.length c ≤ nameLimit)
    (hdir : t.IsDir (place ++ [c]))
    (hmore : names ≠ [] ∨ purpose = .reading) :
    t.walkWith purpose jump trailing place (c :: names) =
      t.walkWith purpose jump trailing (place ++ [c]) names := by
  obtain ⟨mode, hmode⟩ := hdir
  have hgoes : ¬ (names = [] ∧ trailing = true ∧ purpose = .creating) := by
    rintro ⟨hnames, -, hpurpose⟩
    rcases hmore with hmore | hmore
    · exact hmore hnames
    · rw [hmore] at hpurpose
      cases hpurpose
  rw [walkWith, if_neg hhere, if_neg hup, if_neg hgoes, if_neg (Nat.not_lt.mpr hfits), hmode]

theorem walkWith_append
    (hfollow : t.follow place front = some q)
    (hback : back ≠ []) :
    t.walkWith purpose jump trailing place (front ++ back) =
      t.walkWith purpose jump trailing q back := by
  induction front generalizing place with
  | nil =>
      rw [Option.some.inj hfollow]
      rfl
  | cons c rest ih =>
      rw [List.cons_append]
      rcases follow_cons_cases hfollow with
        ⟨rfl, hrest⟩ | ⟨rfl, hrest⟩ | ⟨hhere, hup, hfits, hdir, hrest⟩
      · rw [walkWith_here]
        exact ih hrest
      · rw [walkWith_up]
        exact ih hrest
      · rw [walkWith_dir hhere hup hfits hdir (Or.inl (by simp [hback]))]
        exact ih hrest

theorem walkWith_of_follow
    {entry : Entry}
    (hfollow : t.follow place names = some q)
    (hentry : t.get? q = some entry) :
    t.walkWith .reading jump trailing place names = .ok (.entry q entry) := by
  induction names generalizing place with
  | nil =>
      rw [walkWith, Option.some.inj hfollow, hentry]
  | cons c rest ih =>
      rcases follow_cons_cases hfollow with
        ⟨rfl, hrest⟩ | ⟨rfl, hrest⟩ | ⟨hhere, hup, hfits, hdir, hrest⟩
      · rw [walkWith_here]
        exact ih hrest
      · rw [walkWith_up]
        exact ih hrest
      · rw [walkWith_dir hhere hup hfits hdir (Or.inr rfl)]
        exact ih hrest

/-- Without links, a walk that ends at a directory has followed its names. -/
theorem follow_of_walkWith
    (hlinks : ∀ q target, t.get? q ≠ some (.link target))
    {mode : Nat}
    (h : t.walkWith .reading jump trailing place names = .ok (.entry q (.dir mode))) :
    t.follow place names = some q ∧ t.get? q = some (.dir mode) := by
  induction names generalizing place with
  | nil =>
      rw [walkWith] at h
      split at h
      · next entry hentry =>
        cases h
        exact ⟨rfl, hentry⟩
      · cases h
  | cons c rest ih =>
      rw [walkWith] at h
      rw [follow]
      split at h
      · next hhere =>
        rw [if_pos hhere]
        exact ih h
      · next hhere =>
        rw [if_neg hhere]
        split at h
        · next hup =>
          rw [if_pos hup]
          exact ih h
        · next hup =>
          rw [if_neg hup]
          split at h
          · cases h
          · split at h
            · cases h
            · next hfits =>
              rw [if_neg hfits]
              split at h
              · split at h <;> cases h
              · next mode' hmode' =>
                rw [hmode']
                exact ih h
              · split at h <;> cases h
              · next target htarget => exact absurd htarget (hlinks _ target)

theorem walkWith_vacant
    (hc : FileName.IsName c)
    (hnone : t.get? (place ++ [c]) = none) :
    t.walkWith purpose jump false place [c] = .ok (.vacant place c) := by
  rw [walkWith, if_neg hc.notHere, if_neg hc.notUp, if_neg (by simp),
    if_neg (Nat.not_lt.mpr hc.fits), hnone]
  rfl

theorem walkWith_file
    (hc : FileName.IsName c)
    {serial mode : Nat}
    {content : Bytes}
    (hfile : t.get? (place ++ [c]) = some (.file serial mode content)) :
    t.walkWith purpose jump false place [c] =
      .ok (.entry (place ++ [c]) (.file serial mode content)) := by
  rw [walkWith, if_neg hc.notHere, if_neg hc.notUp, if_neg (by simp),
    if_neg (Nat.not_lt.mpr hc.fits), hfile]
  rfl

theorem walkWith_missing
    (hc : FileName.IsName c)
    (hnone : t.get? (place ++ [c]) = none)
    (hback : back ≠ []) :
    t.walkWith purpose jump trailing place (c :: back) = .error .noEntry := by
  rw [walkWith, if_neg hc.notHere, if_neg hc.notUp, if_neg (by simp [hback]),
    if_neg (Nat.not_lt.mpr hc.fits), hnone]
  dsimp only
  rw [if_neg hback]

/-! ## Paths -/

/-- A path that operations accept as a file name of a length that is allowed. -/
structure IsPath
    (path : Text) : Prop where
  fileName : FileFault.checkPath path = .ok ()
  ne_nil : path ≠ []
  short : FileName.length path < pathLimit

theorem IsPath.routeOf_eq
    {path : Text}
    (h : IsPath path) :
    routeOf path = .ok (Route.ofText path) := by
  rw [routeOf, if_neg h.ne_nil, if_neg (Nat.not_le.mpr h.short)]

/-- A path that leads to a directory through directories. -/
structure LeadsTo
    (t : FileTree)
    (path : Text)
    (place : Place) : Prop where
  isPath : IsPath path
  follows : t.follow (t.startOf (Route.ofText path)) (Route.ofText path).names = some place

/-- A path that names an entry of a directory, or an entry that could be there. -/
structure Names
    (t : FileTree)
    (path : Text)
    (directory : Place)
    (name : Name) : Prop where
  isPath : IsPath path
  isName : FileName.IsName name
  noSlash : (Route.ofText path).trailing = false
  follows : ∃ front, (Route.ofText path).names = front ++ [name] ∧
    t.follow (t.startOf (Route.ofText path)) front = some directory

variable
  {path : Text}
  {name : Name}

theorem isDir_startOf
    (h : t.WellFormed)
    (r : Route) :
    t.IsDir (t.startOf r) := by
  rw [startOf]
  split
  · exact t.isDir_root
  · exact h.workingDir

theorem LeadsTo.isDir
    (h : t.LeadsTo path place)
    (hwf : t.WellFormed) :
    t.IsDir place :=
  isDir_of_follow hwf (isDir_startOf hwf _) h.follows

theorem LeadsTo.resolve
    (h : t.LeadsTo path place)
    {mode : Nat}
    (hmode : t.get? place = some (.dir mode)) :
    t.resolve .reading path = .ok (.entry place (.dir mode)) := by
  obtain ⟨jump, hjump⟩ :=
    walk_eq t .reading linkLimit (t.startOf (Route.ofText path)) (Route.ofText path)
  rw [FileTree.resolve, h.isPath.routeOf_eq]
  exact hjump.trans (walkWith_of_follow h.follows hmode)

/-- In a tree without links every path to a directory leads there. -/
theorem leadsTo_of_resolve
    (hlinks : ∀ q target, t.get? q ≠ some (.link target))
    (hname : FileFault.checkPath path = .ok ())
    {mode : Nat}
    (h : t.resolve .reading path = .ok (.entry place (.dir mode))) :
    t.LeadsTo path place := by
  rw [FileTree.resolve, bind_eq_ok_iff] at h
  obtain ⟨r, hroute, h⟩ := h
  rw [routeOf] at hroute
  split at hroute
  · cases hroute
  · next hne =>
    split at hroute
    · cases hroute
    · next hshort =>
      obtain rfl := Except.ok.inj hroute
      obtain ⟨jump, hjump⟩ :=
        walk_eq t .reading linkLimit (t.startOf (Route.ofText path)) (Route.ofText path)
      rw [hjump] at h
      exact ⟨⟨hname, hne, Nat.lt_of_not_le hshort⟩, (follow_of_walkWith hlinks h).1⟩

theorem leadsTo_of_directoryAt
    (hlinks : ∀ q target, t.get? q ≠ some (.link target))
    (hname : FileFault.checkPath path = .ok ())
    (h : t.directoryAt path = .ok place) :
    t.LeadsTo path place := by
  rw [FileTree.directoryAt, bind_eq_ok_iff] at h
  obtain ⟨target, hresolve, h⟩ := h
  split at h
  · obtain rfl := Except.ok.inj h
    exact leadsTo_of_resolve hlinks hname hresolve
  · cases h
  · cases h

theorem LeadsTo.isThere
    (h : t.LeadsTo path place)
    (hwf : t.WellFormed) :
    t.isThere path = true := by
  obtain ⟨mode, hmode⟩ := h.isDir hwf
  rw [FileTree.isThere, h.resolve hmode]

theorem LeadsTo.isDirectory
    (h : t.LeadsTo path place)
    (hwf : t.WellFormed) :
    t.isDirectory path = true := by
  obtain ⟨mode, hmode⟩ := h.isDir hwf
  rw [FileTree.isDirectory, h.resolve hmode]

theorem LeadsTo.directoryAt
    (h : t.LeadsTo path place)
    (hwf : t.WellFormed) :
    t.directoryAt path = .ok place := by
  obtain ⟨mode, hmode⟩ := h.isDir hwf
  rw [FileTree.directoryAt, h.resolve hmode]
  rfl

/-- A tree with all the directories of another has the paths to them. -/
theorem LeadsTo.mono
    (h : t.LeadsTo path place)
    (hdirs : ∀ q, t.IsDir q → t'.IsDir q)
    (hworking : t'.workingDir = t.workingDir) :
    t'.LeadsTo path place := by
  refine ⟨h.isPath, ?_⟩
  have hstart : t'.startOf (Route.ofText path) = t.startOf (Route.ofText path) := by
    rw [startOf, startOf, hworking]
  rw [hstart]
  exact follow_mono hdirs h.follows

theorem Names.resolve_vacant
    (h : t.Names path directory name)
    (hnone : t.get? (directory ++ [name]) = none)
    (purpose : Purpose) :
    t.resolve purpose path = .ok (.vacant directory name) := by
  obtain ⟨front, hnames, hfollow⟩ := h.follows
  obtain ⟨jump, hjump⟩ :=
    walk_eq t purpose linkLimit (t.startOf (Route.ofText path)) (Route.ofText path)
  rw [FileTree.resolve, h.isPath.routeOf_eq]
  refine hjump.trans ?_
  rw [hnames, h.noSlash, walkWith_append hfollow (by simp)]
  exact walkWith_vacant h.isName hnone

theorem Names.resolve_file
    (h : t.Names path directory name)
    {serial mode : Nat}
    {content : Bytes}
    (hfile : t.get? (directory ++ [name]) = some (.file serial mode content))
    (purpose : Purpose) :
    t.resolve purpose path = .ok (.entry (directory ++ [name]) (.file serial mode content)) := by
  obtain ⟨front, hnames, hfollow⟩ := h.follows
  obtain ⟨jump, hjump⟩ :=
    walk_eq t purpose linkLimit (t.startOf (Route.ofText path)) (Route.ofText path)
  rw [FileTree.resolve, h.isPath.routeOf_eq]
  refine hjump.trans ?_
  rw [hnames, h.noSlash, walkWith_append hfollow (by simp)]
  exact walkWith_file h.isName hfile

theorem Names.parentOf
    (h : t.Names path directory name)
    (hwf : t.WellFormed) :
    t.parentOf path = .ok (directory, .name name false) := by
  obtain ⟨front, hnames, hfollow⟩ := h.follows
  obtain ⟨mode, hmode⟩ := isDir_of_follow hwf (isDir_startOf hwf _) hfollow
  obtain ⟨jump, hjump⟩ := walk_eq t .reading linkLimit (t.startOf (Route.ofText path))
    ⟨(Route.ofText path).absolute, (Route.ofText path).names.dropLast, true⟩
  have hwalk : t.walk .reading linkLimit (t.startOf (Route.ofText path))
      ⟨(Route.ofText path).absolute, (Route.ofText path).names.dropLast, true⟩ =
        .ok (.entry directory (.dir mode)) := by
    refine hjump.trans ?_
    rw [hnames, List.dropLast_concat]
    exact walkWith_of_follow hfollow hmode
  have hlast : lastOf (Route.ofText path) = .name name false := by
    rw [lastOf, hnames, List.getLast?_concat]
    dsimp only
    rw [if_neg (by simp [h.isName.notHere, h.isName.notUp]), h.noSlash]
  rw [FileTree.parentOf, h.isPath.routeOf_eq, ok_bind, hwalk, ok_bind, ← hlast]

/-- An entry that is a directory is led to. -/
theorem Names.leadsTo
    (h : t.Names path directory name)
    (hdir : t.IsDir (directory ++ [name])) :
    t.LeadsTo path (directory ++ [name]) := by
  obtain ⟨front, hnames, hfollow⟩ := h.follows
  refine ⟨h.isPath, ?_⟩
  rw [hnames, follow_append, hfollow, Option.bind_some, follow_name h.isName hdir]
  rfl

/-! ## Joined paths -/

variable
  {base : Text}

theorem checkPath_of_mem
    {p : Text}
    (h : ∀ d ∈ p, d = Path.slash ∨ ∃ part, FileFault.checkPath part = .ok () ∧ d ∈ part) :
    FileFault.checkPath p = .ok () := by
  rw [FileFault.checkPath_eq_ok_iff]
  constructor
  · intro d hd hsurrogate
    rcases h d hd with rfl | ⟨part, hpart, hmem⟩
    · exact absurd hsurrogate (by decide)
    · exact ((FileFault.checkPath_eq_ok_iff part).mp hpart).1 d hmem hsurrogate
  · intro hnull
    rcases h 0 hnull with heq | ⟨part, hpart, hmem⟩
    · exact absurd heq (by decide)
    · exact ((FileFault.checkPath_eq_ok_iff part).mp hpart).2 hmem

theorem isPath_join
    (hbase : FileFault.checkPath base = .ok ())
    (hne : base ≠ [])
    (hc : FileName.IsName c)
    (hshort : FileName.length (Path.join base c) < pathLimit) :
    IsPath (Path.join base c) := by
  refine ⟨checkPath_of_mem ?_, Path.join_ne_nil hne c, hshort⟩
  intro d hd
  rcases Path.mem_join hd with hd | hd | hd
  · exact Or.inr ⟨base, hbase, hd⟩
  · exact Or.inl hd
  · exact Or.inr ⟨c, hc.fileName, hd⟩

theorem names_ofText_join
    (base : Text)
    (hc : FileName.IsName c) :
    (Route.ofText (Path.join base c)).names = (Route.ofText base).names ++ [c] := by
  rw [Route.ofText, Route.ofText, Path.components_join hc.component.isAbsolute_eq,
    hc.component.components_eq, List.map_append, List.map_singleton, hc.settled]

theorem startOf_ofText_eq
    {p : Text}
    (h : Path.isAbsolute p = Path.isAbsolute base) :
    t.startOf (Route.ofText p) = t.startOf (Route.ofText base) := by
  rw [startOf, startOf, Route.ofText, Route.ofText, h]

/-- A name joined to a path that leads to a directory names an entry of it. -/
theorem LeadsTo.names_join
    (h : t.LeadsTo base place)
    (hc : FileName.IsName c)
    (hshort : FileName.length (Path.join base c) < pathLimit) :
    t.Names (Path.join base c) place c := by
  have hne := h.isPath.ne_nil
  refine ⟨isPath_join h.isPath.fileName hne hc hshort, hc, ?_, ?_⟩
  · rw [Route.ofText]
    dsimp only
    rw [hc.component.getLast?_join hne]
    simpa using hc.component.getLast?_ne
  · refine ⟨(Route.ofText base).names, names_ofText_join base hc, ?_⟩
    rw [startOf_ofText_eq (Path.isAbsolute_join hne hc.component.isAbsolute_eq)]
    exact h.follows

/-- A path that needs a directory which is not there leads to nothing. -/
theorem LeadsTo.resolve_missing
    (h : t.LeadsTo base place)
    {p : Text}
    (hp : IsPath p)
    (habsolute : Path.isAbsolute p = Path.isAbsolute base)
    (hnames : (Route.ofText p).names = (Route.ofText base).names ++ c :: back)
    (hback : back ≠ [])
    (hc : FileName.IsName c)
    (hnone : t.get? (place ++ [c]) = none) :
    t.resolve purpose p = .error .noEntry := by
  obtain ⟨jump, hjump⟩ := walk_eq t purpose linkLimit (t.startOf (Route.ofText p)) (Route.ofText p)
  rw [FileTree.resolve, hp.routeOf_eq]
  refine hjump.trans ?_
  rw [hnames, startOf_ofText_eq habsolute, walkWith_append h.follows (by simp)]
  exact walkWith_missing hc hnone hback

/-- What stands before a joined name leads to the same directory as the path it was joined to. -/
theorem LeadsTo.dirName_join
    (h : t.LeadsTo base place)
    (hc : FileName.IsName c)
    (hshort : FileName.length (Path.join base c) < pathLimit) :
    t.LeadsTo (Path.dirName (Path.join base c)) place := by
  obtain ⟨hne, habsolute, hcomponents⟩ := hc.component.dirName_join_similar h.isPath.ne_nil
  have hprefix := Path.dirName_prefix (Path.join base c)
  have hjoined := isPath_join h.isPath.fileName h.isPath.ne_nil hc hshort
  refine ⟨⟨checkPath_of_mem ?_, hne, ?_⟩, ?_⟩
  · intro d hd
    exact Or.inr ⟨_, hjoined.fileName, hprefix.subset hd⟩
  · exact Nat.lt_of_le_of_lt (FileName.length_le_of_prefix hprefix) hshort
  · have hnames : (Route.ofText (Path.dirName (Path.join base c))).names =
        (Route.ofText base).names := by
      rw [Route.ofText, Route.ofText, hcomponents]
    rw [startOf_ofText_eq habsolute, hnames]
    exact h.follows

/-! ## Absolute paths -/

theorem components_workingPath
    (h : t.WellFormed) :
    Path.components t.workingPath = t.workingDir := by
  rw [workingPath, Path.components_slash]
  exact Path.components_join_slash fun c hc => (h.workingNames c hc).component

theorem mem_workingPath
    {d : CodePoint}
    (hd : d ∈ t.workingPath) :
    d = Path.slash ∨ ∃ name ∈ t.workingDir, d ∈ name := by
  rw [workingPath] at hd
  rcases List.mem_cons.mp hd with rfl | hd
  · exact Or.inl rfl
  · rcases Text.mem_join hd with hd | hd
    · exact Or.inl (List.mem_singleton.mp hd)
    · exact Or.inr hd

theorem isAbsolute_join_workingPath
    (t : FileTree)
    (p : Text) :
    Path.isAbsolute (Path.join t.workingPath p) = true := by
  rw [Path.join]
  split
  · next h => exact h
  · split <;> rfl

/-- From the root, the working directory's names and then those of a relative path lead where the
path leads. -/
theorem follow_join_workingPath
    (hwf : t.WellFormed)
    (h : t.LeadsTo path place) :
    t.follow [] ((Path.components (Path.join t.workingPath path)).map FileName.settled) =
      some place := by
  have hfollows := h.follows
  rw [startOf, Route.ofText] at hfollows
  dsimp only at hfollows
  by_cases habsolute : Path.isAbsolute path = true
  · rw [if_pos habsolute] at hfollows
    rw [Path.join, if_pos habsolute]
    exact hfollows
  · rw [if_neg habsolute] at hfollows
    have hsettled : t.workingDir.map FileName.settled = t.workingDir := by
      rw [List.map_congr_left fun c hc => (hwf.workingNames c hc).settled, List.map_id']
    have hstart : t.follow [] t.workingDir = some t.workingDir :=
      follow_place hwf hwf.workingNames hwf.workingDir
    rw [Path.components_join (by simpa using habsolute), components_workingPath hwf,
      List.map_append, hsettled, follow_append, hstart]
    exact hfollows

/-- The names of a normal form are those that are left of the path from the root. -/
theorem names_absolute
    (t : FileTree)
    (path : Text) :
    (Route.ofText (Path.absolute t.workingPath path)).names =
      (Path.cancel true []
        ((Path.components (Path.join t.workingPath path)).map FileName.settled)).reverse := by
  obtain ⟨-, hcomponents⟩ := Path.normalize_of_isAbsolute (isAbsolute_join_workingPath t path)
  have hmap := Path.cancel_map FileName.settled_eq_here_iff FileName.settled_eq_up_iff true []
    (Path.components (Path.join t.workingPath path))
  rw [List.map_nil] at hmap
  rw [hmap, ← List.map_reverse, Route.ofText, Path.absolute, hcomponents, Path.kept]

theorem startOf_absolute
    (t : FileTree)
    (path : Text) :
    t.startOf (Route.ofText (Path.absolute t.workingPath path)) = [] := by
  obtain ⟨habsolute, -⟩ := Path.normalize_of_isAbsolute (isAbsolute_join_workingPath t path)
  rw [startOf, Route.ofText, Path.absolute, habsolute]
  rfl

/-- The normal form of a path leads to the same directory, if it is not too long. -/
theorem LeadsTo.absolute
    (h : t.LeadsTo path place)
    (hwf : t.WellFormed)
    (hshort : FileName.length (Path.absolute t.workingPath path) < pathLimit) :
    t.LeadsTo (Path.absolute t.workingPath path) place := by
  have hjoined := isAbsolute_join_workingPath t path
  obtain ⟨habsolute, hcomponents⟩ := Path.normalize_of_isAbsolute hjoined
  refine ⟨⟨checkPath_of_mem ?_, ?_, hshort⟩, ?_⟩
  · intro d hd
    rcases Path.mem_normalize hjoined hd with hd | hd
    · exact Or.inl hd
    · rcases Path.mem_join hd with hd | hd | hd
      · rcases mem_workingPath hd with hd | ⟨name, hname, hd⟩
        · exact Or.inl hd
        · exact Or.inr ⟨name, (hwf.workingNames name hname).fileName, hd⟩
      · exact Or.inl hd
      · exact Or.inr ⟨path, h.isPath.fileName, hd⟩
  · intro hnil
    rw [Path.absolute] at hnil
    rw [hnil] at habsolute
    cases habsolute
  · rw [names_absolute, startOf_absolute]
    exact follow_cancel (by simp) rfl (follow_join_workingPath hwf h)

end FileTree

end Keybox

import Mathlib.Logic.Relation
import Keybox.Proofs.FileTree.Walk

/-!
# Walks step by step

In a tree with links a walk is a run of single steps, each past one name: the directory itself, its
parent, a directory in it, or a link, whose target's names come before those ahead. A walk looks at
directories and links only, so a tree that has those of another one has its walks. A name that is
put after the others is not looked at before these are passed.
-/

namespace Keybox

namespace FileTree

/-- Where a walk stands: how many links it may still follow, the place it has come to, the names
ahead, and whether a slash ends them. -/
structure Stage where
  links : Nat
  place : Place
  names : List Name
  trailing : Bool

/-- A name that a walk looks up in a directory. -/
structure Ordinary
    (c : Name) : Prop where
  notHere : c ≠ Path.here
  notUp : c ≠ Path.up
  fits : FileName.length c ≤ nameLimit

/-- One step of a walk. -/
inductive Step
    (t : FileTree) : Stage → Stage → Prop
  | here
      {links : Nat}
      {place : Place}
      {rest : List Name}
      {trailing : Bool} :
      Step t ⟨links, place, Path.here :: rest, trailing⟩ ⟨links, place, rest, trailing⟩
  | up
      {links : Nat}
      {place : Place}
      {rest : List Name}
      {trailing : Bool} :
      Step t ⟨links, place, Path.up :: rest, trailing⟩ ⟨links, place.dropLast, rest, trailing⟩
  | dir
      {links mode : Nat}
      {place : Place}
      {c : Name}
      {rest : List Name}
      {trailing : Bool}
      (ordinary : Ordinary c)
      (found : t.get? (place ++ [c]) = some (.dir mode)) :
      Step t ⟨links, place, c :: rest, trailing⟩ ⟨links, place ++ [c], rest, trailing⟩
  | link
      {links : Nat}
      {place : Place}
      {c : Name}
      {rest : List Name}
      {trailing : Bool}
      {target : Text}
      (ordinary : Ordinary c)
      (found : t.get? (place ++ [c]) = some (.link target)) :
      Step t ⟨links + 1, place, c :: rest, trailing⟩
        ⟨links, if (Route.ofText target).absolute then [] else place,
          (Route.ofText target).names ++ rest,
          trailing || (rest.isEmpty && (Route.ofText target).trailing)⟩

/-- Any number of steps. -/
abbrev Steps
    (t : FileTree) : Stage → Stage → Prop :=
  Relation.ReflTransGen t.Step

/-- The walk from a stage on. -/
def goOn
    (t : FileTree)
    (purpose : Purpose)
    (s : Stage) : Except Errno Target :=
  t.walk purpose s.links s.place ⟨false, s.names, s.trailing⟩

variable
  {t t' : FileTree}
  {s s' : Stage}
  {purpose : Purpose}

/-- How a walk goes on at a link. -/
def jump
    (t : FileTree)
    (purpose : Purpose) : Nat → Place → Route → Except Errno Target
  | 0 => fun _ _ => .error .tooManyLinks
  | links + 1 => t.walk purpose links

theorem walk_eq_walkWith
    (t : FileTree)
    (purpose : Purpose)
    (links : Nat)
    (place : Place)
    (r : Route) :
    t.walk purpose links place r =
      t.walkWith purpose (t.jump purpose links) r.trailing place r.names := by
  cases links with
  | zero =>
      rw [walk, jump]
  | succ links =>
      rw [walk, jump]

theorem goOn_eq_walkWith
    (t : FileTree)
    (purpose : Purpose)
    (s : Stage) :
    t.goOn purpose s = t.walkWith purpose (t.jump purpose s.links) s.trailing s.place s.names :=
  walk_eq_walkWith t purpose s.links s.place ⟨false, s.names, s.trailing⟩

theorem walk_eq_goOn
    (t : FileTree)
    (purpose : Purpose)
    (links : Nat)
    (place : Place)
    (r : Route) :
    t.walk purpose links place r = t.goOn purpose ⟨links, place, r.names, r.trailing⟩ := by
  rw [walk_eq_walkWith, goOn_eq_walkWith]

/-! ## From steps to walks -/

theorem walkWith_link
    {jump : Place → Route → Except Errno Target}
    {place : Place}
    {c : Name}
    {names : List Name}
    {trailing : Bool}
    {target : Text}
    (hc : Ordinary c)
    (hlink : t.get? (place ++ [c]) = some (.link target))
    (hmore : names ≠ [] ∨ purpose = .reading) :
    t.walkWith purpose jump trailing place (c :: names) =
      jump (if (Route.ofText target).absolute then [] else place)
        ⟨(Route.ofText target).absolute, (Route.ofText target).names ++ names,
          trailing || (names.isEmpty && (Route.ofText target).trailing)⟩ := by
  have hgoes : ¬ (names = [] ∧ trailing = true ∧ purpose = .creating) := by
    rintro ⟨hnames, -, hpurpose⟩
    rcases hmore with hmore | hmore
    · exact hmore hnames
    · rw [hmore] at hpurpose
      cases hpurpose
  rw [walkWith, if_neg hc.notHere, if_neg hc.notUp, if_neg hgoes, if_neg (Nat.not_lt.mpr hc.fits),
    hlink]

/-- A step does not change where a walk ends, unless a walk that creates refuses the last name. -/
theorem goOn_step
    (h : t.Step s s')
    (hmore : s.names.tail ≠ [] ∨ purpose = .reading) :
    t.goOn purpose s = t.goOn purpose s' := by
  rw [goOn_eq_walkWith, goOn_eq_walkWith]
  cases h with
  | here =>
      exact walkWith_here
  | up =>
      exact walkWith_up
  | dir hc hdir =>
      exact walkWith_dir hc.notHere hc.notUp hc.fits ⟨_, hdir⟩ hmore
  | link hc hlink =>
      exact (walkWith_link hc hlink hmore).trans (walk_eq_walkWith t purpose _ _ _)

theorem goOn_steps
    (h : t.Steps s s') :
    t.goOn .reading s = t.goOn .reading s' := by
  induction h with
  | refl =>
      rfl
  | tail _ hstep ih =>
      exact ih.trans (goOn_step hstep (Or.inr rfl))

/-! ## Names after the others -/

/-- A stage with more names after those ahead of it. -/
def Stage.andThen
    (s : Stage)
    (back : List Name)
    (trailing : Bool) : Stage :=
  ⟨s.links, s.place, s.names ++ back, trailing⟩

variable
  {back : List Name}

theorem Step.andThen
    (h : t.Step s s')
    (hback : back ≠ [])
    (trailing : Bool) :
    t.Step (s.andThen back trailing) (s'.andThen back trailing) := by
  cases h with
  | here =>
      exact .here
  | up =>
      exact .up
  | dir hc hdir =>
      exact .dir hc hdir
  | link hc hlink =>
      rename_i links place c rest trailing' target
      have hstep : t.Step ⟨links + 1, place, c :: (rest ++ back), trailing⟩ _ := .link hc hlink
      have hlast : (rest ++ back).isEmpty = false := by simp [hback]
      rw [hlast, Bool.false_and, Bool.or_false, ← List.append_assoc] at hstep
      exact hstep

/-- While names come after those that are passed, walks of both purposes go the same way. -/
theorem goOn_andThen
    (h : t.Steps s s')
    (hback : back ≠ [])
    (purpose : Purpose)
    (trailing : Bool) :
    t.goOn purpose (s.andThen back trailing) = t.goOn purpose (s'.andThen back trailing) := by
  induction h with
  | refl =>
      rfl
  | tail _ hstep ih =>
      refine ih.trans (goOn_step (hstep.andThen hback trailing) (Or.inl ?_))
      cases hstep <;> simp [Stage.andThen, hback]

/-! ## From walks to steps -/

/-- Where a walk ends: at a stage without names, or at a last name that is a file or vacant. -/
inductive Ends
    (t : FileTree)
    (purpose : Purpose) : Stage → Target → Prop
  | arrived
      {links : Nat}
      {place : Place}
      {trailing : Bool}
      {entry : Entry}
      (found : t.get? place = some entry) :
      Ends t purpose ⟨links, place, [], trailing⟩ (.entry place entry)
  | file
      {links serial mode : Nat}
      {place : Place}
      {c : Name}
      {content : Bytes}
      (ordinary : Ordinary c)
      (found : t.get? (place ++ [c]) = some (.file serial mode content)) :
      Ends t purpose ⟨links, place, [c], false⟩ (.entry (place ++ [c]) (.file serial mode content))
  | vacant
      {links : Nat}
      {place : Place}
      {c : Name}
      {trailing : Bool}
      (ordinary : Ordinary c)
      (noSlash : purpose = .creating → trailing = false)
      (missing : t.get? (place ++ [c]) = none) :
      Ends t purpose ⟨links, place, [c], trailing⟩ (.vacant place c)

/-- Before a walk follows a link it ends, or it comes to the first one. -/
inductive Meets
    (t : FileTree)
    (purpose : Purpose)
    (jump : Place → Route → Except Errno Target)
    (s : Stage)
    (target : Target) : Prop
  | ends
      {s' : Stage}
      (steps : t.Steps s s')
      (ends : t.Ends purpose s' target)
  | link
      {place : Place}
      {c : Name}
      {rest : List Name}
      {aim : Text}
      (steps : t.Steps s ⟨s.links, place, c :: rest, s.trailing⟩)
      (ordinary : Ordinary c)
      (found : t.get? (place ++ [c]) = some (.link aim))
      (jumps : jump (if (Route.ofText aim).absolute then [] else place)
        ⟨(Route.ofText aim).absolute, (Route.ofText aim).names ++ rest,
          s.trailing || (rest.isEmpty && (Route.ofText aim).trailing)⟩ = .ok target)

theorem Meets.head
    {jump : Place → Route → Except Errno Target}
    {links : Nat}
    {place place₁ : Place}
    {names names₁ : List Name}
    {trailing : Bool}
    {target : Target}
    (hstep : t.Step ⟨links, place, names, trailing⟩ ⟨links, place₁, names₁, trailing⟩)
    (h : t.Meets purpose jump ⟨links, place₁, names₁, trailing⟩ target) :
    t.Meets purpose jump ⟨links, place, names, trailing⟩ target := by
  cases h with
  | ends hsteps hends =>
      exact .ends (.head hstep hsteps) hends
  | link hsteps hc hlink hjump =>
      exact .link (.head hstep hsteps) hc hlink hjump

theorem meets_of_walkWith
    {jump : Place → Route → Except Errno Target}
    {place : Place}
    {names : List Name}
    {trailing : Bool}
    {target : Target}
    (links : Nat)
    (h : t.walkWith purpose jump trailing place names = .ok target) :
    t.Meets purpose jump ⟨links, place, names, trailing⟩ target := by
  induction names generalizing place with
  | nil =>
      rw [walkWith] at h
      split at h
      · next entry hentry =>
        obtain rfl := Except.ok.inj h
        exact .ends .refl (.arrived hentry)
      · cases h
  | cons c rest ih =>
      rw [walkWith] at h
      split at h
      · next hhere =>
        subst hhere
        exact .head .here (ih h)
      · next hhere =>
        split at h
        · next hup =>
          subst hup
          exact .head .up (ih h)
        · next hup =>
          split at h
          · cases h
          · next hgoes =>
            split at h
            · cases h
            · next hfits =>
              have hc : Ordinary c := ⟨hhere, hup, Nat.le_of_not_lt hfits⟩
              split at h
              · next hnone =>
                split at h
                · next hrest =>
                  subst hrest
                  obtain rfl := Except.ok.inj h
                  refine .ends .refl (.vacant hc ?_ hnone)
                  intro hpurpose
                  cases trailing with
                  | false =>
                      rfl
                  | true =>
                      exact absurd ⟨rfl, rfl, hpurpose⟩ hgoes
                · cases h
              · next mode hmode =>
                exact .head (.dir hc hmode) (ih h)
              · next serial mode content hfile =>
                split at h
                · next hlast =>
                  obtain ⟨rfl, htrailing⟩ := hlast
                  obtain rfl : trailing = false := by simpa using htrailing
                  obtain rfl := Except.ok.inj h
                  exact .ends .refl (.file hc hfile)
                · cases h
              · next aim hlink =>
                exact .link .refl hc hlink h

/-- A walk that ends has gone there step by step. -/
theorem exists_ends_of_goOn
    {target : Target}
    (h : t.goOn purpose s = .ok target) :
    ∃ s', t.Steps s s' ∧ t.Ends purpose s' target := by
  obtain ⟨links, place, names, trailing⟩ := s
  induction links generalizing place names trailing with
  | zero =>
      rw [goOn_eq_walkWith] at h
      cases meets_of_walkWith 0 h with
      | ends hsteps hends =>
          exact ⟨_, hsteps, hends⟩
      | link _ _ _ hjump =>
          cases hjump
  | succ links ih =>
      rw [goOn_eq_walkWith] at h
      cases meets_of_walkWith (links + 1) h with
      | ends hsteps hends =>
          exact ⟨_, hsteps, hends⟩
      | link hsteps hc hlink hjump =>
          rw [jump, walk_eq_goOn] at hjump
          obtain ⟨s', hsteps', hends⟩ := ih _ _ _ hjump
          exact ⟨s', hsteps.trans (.head (.link hc hlink) hsteps'), hends⟩

/-! ## Other trees -/

/-- The directories and links of a tree are in another one. -/
def WaysIn
    (t t' : FileTree) : Prop :=
  ∀ place entry, t.get? place = some entry →
    (∀ serial mode content, entry ≠ .file serial mode content) → t'.get? place = some entry

theorem Step.mono
    (hways : t.WaysIn t')
    (h : t.Step s s') :
    t'.Step s s' := by
  cases h with
  | here =>
      exact .here
  | up =>
      exact .up
  | dir hc hdir =>
      exact .dir hc (hways _ _ hdir (by rintro _ _ _ ⟨⟩))
  | link hc hlink =>
      exact .link hc (hways _ _ hlink (by rintro _ _ _ ⟨⟩))

theorem Steps.mono
    (hways : t.WaysIn t')
    (h : t.Steps s s') :
    t'.Steps s s' := by
  induction h with
  | refl =>
      exact .refl
  | tail _ hstep ih =>
      exact ih.tail (hstep.mono hways)

/-- Changing anything but a directory or a link leaves all ways as they are. -/
theorem Becomes.waysIn
    {place : Place}
    {entry : Entry}
    (h : t.Becomes place entry t')
    (hplace : ∀ old, t.get? place = some old →
      ∃ serial mode content, old = .file serial mode content) :
    t.WaysIn t' := by
  intro other found hfound hnotFile
  rw [h.get_of_ne, hfound]
  rintro rfl
  obtain ⟨serial, mode, content, rfl⟩ := hplace found hfound
  exact hnotFile serial mode content rfl

/-- A file in the place of anything makes no new way. -/
theorem Becomes.waysIn_of_file
    {place : Place}
    {serial mode : Nat}
    {content : Bytes}
    (h : t.Becomes place (.file serial mode content) t') :
    t'.WaysIn t := by
  intro other found hfound hnotFile
  rw [h.get] at hfound
  split at hfound
  · exact absurd (Option.some.inj hfound).symm (hnotFile _ _ _)
  · exact hfound

theorem Step.isDir
    (hwf : t.WellFormed)
    (h : t.Step s s')
    (hplace : t.IsDir s.place) :
    t.IsDir s'.place := by
  cases h with
  | here =>
      exact hplace
  | up =>
      exact hwf.dropLast hplace
  | dir _ hdir =>
      exact ⟨_, hdir⟩
  | link _ _ =>
      dsimp only
      split
      · exact t.isDir_root
      · exact hplace

theorem Steps.isDir
    (hwf : t.WellFormed)
    (h : t.Steps s s')
    (hplace : t.IsDir s.place) :
    t.IsDir s'.place := by
  induction h with
  | refl =>
      exact hplace
  | tail _ hstep ih =>
      exact hstep.isDir hwf ih

/-- Whether a slash ends the names ahead does not matter for a step, but for the flag itself. -/
theorem Step.exists_slash
    (h : t.Step s s')
    (slash : Bool) :
    ∃ slash', t.Step { s with trailing := slash } { s' with trailing := slash' } := by
  cases h with
  | here =>
      exact ⟨slash, .here⟩
  | up =>
      exact ⟨slash, .up⟩
  | dir hc hdir =>
      exact ⟨slash, .dir hc hdir⟩
  | link hc hlink =>
      exact ⟨_, .link hc hlink⟩

theorem Steps.exists_slash
    (h : t.Steps s s')
    (slash : Bool) :
    ∃ slash', t.Steps { s with trailing := slash } { s' with trailing := slash' } := by
  induction h with
  | refl =>
      exact ⟨slash, .refl⟩
  | tail _ hstep ih =>
      obtain ⟨between, hsteps⟩ := ih
      obtain ⟨slash', hstep'⟩ := hstep.exists_slash between
      exact ⟨slash', hsteps.tail hstep'⟩

/-! ## Paths -/

/-- The stage at which the walk of a path begins. -/
def firstStage
    (t : FileTree)
    (path : Text) : Stage :=
  ⟨linkLimit, t.startOf (Route.ofText path), (Route.ofText path).names,
    (Route.ofText path).trailing⟩

/-- The stage at which the walk to the directory of a path's last name begins. -/
def frontStage
    (t : FileTree)
    (path : Text) : Stage :=
  ⟨linkLimit, t.startOf (Route.ofText path), (Route.ofText path).names.dropLast, true⟩

variable
  {path : Text}
  {place directory : Place}
  {c : Name}

theorem routeOf_eq_ok_iff
    {r : Route} :
    routeOf path = .ok r ↔
      path ≠ [] ∧ FileName.length path < pathLimit ∧ Route.ofText path = r := by
  rw [routeOf]
  split
  · next h => simp [h]
  · next h =>
    split
    · next hlong => simp [Nat.not_lt.mpr hlong]
    · next hshort => simp [h, Nat.lt_of_not_le hshort]

theorem resolve_eq_goOn
    (hr : routeOf path = .ok (Route.ofText path)) :
    t.resolve purpose path = t.goOn purpose (t.firstStage path) := by
  rw [resolve, hr, ok_bind, walk_eq_goOn]
  rfl

theorem resolve_eq_ok_iff
    {target : Target} :
    t.resolve purpose path = .ok target ↔
      routeOf path = .ok (Route.ofText path) ∧
        t.goOn purpose (t.firstStage path) = .ok target := by
  constructor
  · intro h
    rw [resolve, bind_eq_ok_iff] at h
    obtain ⟨r, hr, hwalk⟩ := h
    obtain ⟨-, -, rfl⟩ := routeOf_eq_ok_iff.mp hr
    rw [walk_eq_goOn] at hwalk
    exact ⟨hr, hwalk⟩
  · rintro ⟨hr, hwalk⟩
    rw [resolve_eq_goOn hr, hwalk]

/-- The directory of a path's last name is where the names before it lead. -/
theorem parentOf_eq_ok_iff
    {last : Last} :
    t.parentOf path = .ok (directory, last) ↔
      routeOf path = .ok (Route.ofText path) ∧ lastOf (Route.ofText path) = last ∧
        t.IsDir directory ∧
          ∃ links slash, t.Steps (t.frontStage path) ⟨links, directory, [], slash⟩ := by
  constructor
  · intro h
    rw [parentOf, bind_eq_ok_iff] at h
    obtain ⟨r, hr, h⟩ := h
    obtain ⟨-, -, rfl⟩ := routeOf_eq_ok_iff.mp hr
    rw [bind_eq_ok_iff] at h
    obtain ⟨target, hwalk, h⟩ := h
    rw [walk_eq_goOn] at hwalk
    obtain ⟨s', hsteps, hends⟩ := exists_ends_of_goOn hwalk
    split at h
    · next mode =>
      obtain ⟨rfl, rfl⟩ := Prod.mk.inj (Except.ok.inj h)
      cases hends with
      | arrived hdir =>
          exact ⟨hr, rfl, ⟨mode, hdir⟩, _, _, hsteps⟩
    · cases h
    · cases h
  · rintro ⟨hr, rfl, ⟨mode, hmode⟩, links, slash, hsteps⟩
    have hwalk : t.goOn .reading (t.frontStage path) = .ok (.entry directory (.dir mode)) := by
      rw [goOn_steps hsteps, goOn_eq_walkWith, walkWith, hmode]
    rw [parentOf, hr, ok_bind, walk_eq_goOn]
    rw [frontStage] at hwalk
    rw [hwalk]
    rfl

theorem lastOf_eq_name
    {r : Route}
    {slash : Bool}
    (h : lastOf r = .name c slash) :
    r.names = r.names.dropLast ++ [c] ∧ c ≠ Path.here ∧ c ≠ Path.up ∧ r.trailing = slash := by
  rw [lastOf] at h
  split at h
  · cases h
  · next d hd =>
    split at h
    · cases h
    · next hspecial =>
      rw [not_or] at hspecial
      obtain ⟨rfl, hslash⟩ := Last.name.inj h
      refine ⟨?_, hspecial.1, hspecial.2, hslash⟩
      obtain ⟨before, hbefore⟩ := List.getLast?_eq_some_iff.mp hd
      rw [hbefore, List.dropLast_concat]

/-- A name joined to a path that leads to a directory is looked up there. -/
theorem parentOf_join
    (hdirectory : t.directoryAt path = .ok directory)
    (hc : FileName.IsName c)
    (hshort : FileName.length (Path.join path c) < pathLimit) :
    t.parentOf (Path.join path c) = .ok (directory, .name c false) := by
  rw [directoryAt, bind_eq_ok_iff] at hdirectory
  obtain ⟨target, hresolve, hdir⟩ := hdirectory
  split at hdir
  · next place mode =>
    obtain rfl := Except.ok.inj hdir
    obtain ⟨hr, hgo⟩ := resolve_eq_ok_iff.mp hresolve
    obtain ⟨hne, -, -⟩ := routeOf_eq_ok_iff.mp hr
    obtain ⟨s', hsteps, hends⟩ := exists_ends_of_goOn hgo
    cases hends with
    | arrived hfound =>
        have hnames := names_ofText_join path hc
        have hstart : t.startOf (Route.ofText (Path.join path c)) =
            t.startOf (Route.ofText path) :=
          startOf_ofText_eq (Path.isAbsolute_join hne hc.component.isAbsolute_eq)
        have hfront : t.frontStage (Path.join path c) =
            { t.firstStage path with trailing := true } := by
          rw [frontStage, hnames, List.dropLast_concat, hstart]
          rfl
        have hlast : lastOf (Route.ofText (Path.join path c)) = .name c false := by
          rw [lastOf, hnames, List.getLast?_concat]
          dsimp only
          rw [if_neg (by simp [hc.notHere, hc.notUp]), Route.ofText]
          dsimp only
          rw [hc.component.getLast?_join hne]
          simpa using hc.component.getLast?_ne
        obtain ⟨slash', hsteps'⟩ := hsteps.exists_slash true
        rw [← hfront] at hsteps'
        exact parentOf_eq_ok_iff.mpr
          ⟨routeOf_eq_ok_iff.mpr ⟨Path.join_ne_nil hne c, hshort, rfl⟩, hlast, ⟨mode, hfound⟩,
            _, _, hsteps'⟩
  · cases hdir
  · cases hdir

theorem firstStage_eq_andThen
    {slash : Bool}
    (hlast : lastOf (Route.ofText path) = .name c slash) :
    t.firstStage path = (t.frontStage path).andThen [c] slash := by
  obtain ⟨hnames, -, -, hslash⟩ := lastOf_eq_name hlast
  rw [firstStage, hnames, hslash]
  rfl

/-- A walk of a whole path comes to the directory of its last name before it looks at that. -/
theorem goOn_firstStage
    {s : Stage}
    {slash : Bool}
    (hlast : lastOf (Route.ofText path) = .name c slash)
    (hsteps : t.Steps (t.frontStage path) s)
    (purpose : Purpose) :
    t.goOn purpose (t.firstStage path) = t.goOn purpose (s.andThen [c] slash) := by
  rw [firstStage_eq_andThen hlast]
  exact goOn_andThen hsteps (by simp) purpose slash

/-! ## The last name -/

section

variable
  {links serial mode : Nat}
  {content : Bytes}
  {names : List Name}
  {slash : Bool}

theorem goOn_file
    (hc : Ordinary c)
    (hfile : t.get? (place ++ [c]) = some (.file serial mode content))
    (purpose : Purpose) :
    t.goOn purpose ⟨links, place, [c], false⟩ =
      .ok (.entry (place ++ [c]) (.file serial mode content)) := by
  rw [goOn_eq_walkWith, walkWith, if_neg hc.notHere, if_neg hc.notUp, if_neg (by simp),
    if_neg (Nat.not_lt.mpr hc.fits), hfile]
  rfl

theorem goOn_vacant
    (hc : Ordinary c)
    (hnone : t.get? (place ++ [c]) = none)
    (purpose : Purpose) :
    t.goOn purpose ⟨links, place, [c], false⟩ = .ok (.vacant place c) := by
  rw [goOn_eq_walkWith, walkWith, if_neg hc.notHere, if_neg hc.notUp, if_neg (by simp),
    if_neg (Nat.not_lt.mpr hc.fits), hnone]
  rfl

theorem goOn_arrived
    {entry : Entry}
    (hentry : t.get? place = some entry)
    (purpose : Purpose) :
    t.goOn purpose ⟨links, place, [], slash⟩ = .ok (.entry place entry) := by
  rw [goOn_eq_walkWith, walkWith, hentry]

/-- There is no way through a file. -/
theorem goOn_through_file
    (hc : Ordinary c)
    (hfile : t.get? (place ++ [c]) = some (.file serial mode content))
    (hmore : names ≠ []) :
    t.goOn purpose ⟨links, place, c :: names, slash⟩ = .error .notDirectory := by
  rw [goOn_eq_walkWith, walkWith, if_neg hc.notHere, if_neg hc.notUp, if_neg (by simp [hmore]),
    if_neg (Nat.not_lt.mpr hc.fits), hfile]
  dsimp only
  rw [if_neg (by simp [hmore])]

end

/-! ## Paths in other trees -/

theorem firstStage_congr
    (h : t'.workingDir = t.workingDir)
    (path : Text) :
    t'.firstStage path = t.firstStage path := by
  rw [firstStage, firstStage, startOf, startOf, h]

theorem frontStage_congr
    (h : t'.workingDir = t.workingDir)
    (path : Text) :
    t'.frontStage path = t.frontStage path := by
  rw [frontStage, frontStage, startOf, startOf, h]

theorem WaysIn.isDir
    (hways : t.WaysIn t')
    (h : t.IsDir place) :
    t'.IsDir place := by
  obtain ⟨mode, hmode⟩ := h
  exact ⟨mode, hways _ _ hmode (by rintro _ _ _ ⟨⟩)⟩

/-- The directory of a path's last name is the same where all ways are kept. -/
theorem parentOf_mono
    {last : Last}
    (hways : t.WaysIn t')
    (hworking : t'.workingDir = t.workingDir)
    (h : t.parentOf path = .ok (directory, last)) :
    t'.parentOf path = .ok (directory, last) := by
  obtain ⟨hr, hlast, hdirectory, links, slash, hsteps⟩ := parentOf_eq_ok_iff.mp h
  refine parentOf_eq_ok_iff.mpr ⟨hr, hlast, hways.isDir hdirectory, links, slash, ?_⟩
  rw [frontStage_congr hworking]
  exact hsteps.mono hways

theorem resolve_dir_mono
    {mode : Nat}
    (hways : t.WaysIn t')
    (hworking : t'.workingDir = t.workingDir)
    (h : t.resolve .reading path = .ok (.entry place (.dir mode))) :
    t'.resolve .reading path = .ok (.entry place (.dir mode)) := by
  obtain ⟨hr, hgo⟩ := resolve_eq_ok_iff.mp h
  obtain ⟨s', hsteps, hends⟩ := exists_ends_of_goOn hgo
  refine resolve_eq_ok_iff.mpr ⟨hr, ?_⟩
  rw [firstStage_congr hworking, goOn_steps (hsteps.mono hways)]
  cases hends with
  | arrived hdir =>
      exact goOn_arrived (hways _ _ hdir (by rintro _ _ _ ⟨⟩)) .reading

theorem get?_of_resolve
    {entry : Entry}
    (h : t.resolve purpose path = .ok (.entry place entry)) :
    t.get? place = some entry := by
  obtain ⟨s', -, hends⟩ := exists_ends_of_goOn (resolve_eq_ok_iff.mp h).2
  cases hends with
  | arrived hfound =>
      exact hfound
  | file _ hfound =>
      exact hfound

/-- Where the directory of the last name is known, a path leads to what the name is given to. -/
theorem resolve_of_parentOf
    {slash : Bool}
    {target : Target}
    (h : t.parentOf path = .ok (directory, .name c slash))
    (hgo : ∀ links, t.goOn purpose ⟨links, directory, [c], slash⟩ = .ok target) :
    t.resolve purpose path = .ok target := by
  obtain ⟨hr, hlast, -, links, slash', hsteps⟩ := parentOf_eq_ok_iff.mp h
  refine resolve_eq_ok_iff.mpr ⟨hr, ?_⟩
  rw [goOn_firstStage hlast hsteps]
  exact hgo links

/-! ## Without an entry -/

/-- A step is one without the entry as well, or is made through the entry. -/
theorem Step.erase_or
    (hplace : place ≠ [])
    (h : t.Step s s') :
    (t.erase place).Step s s' ∨
      ∃ links directory c names slash, s = ⟨links, directory, c :: names, slash⟩ ∧
        directory ++ [c] = place ∧ Ordinary c := by
  have hget : ∀ {other : Place}, other ≠ place → (t.erase place).get? other = t.get? other :=
    fun hother => by rw [get?_erase _ hplace, if_neg hother]
  cases h with
  | here =>
      exact Or.inl .here
  | up =>
      exact Or.inl .up
  | dir hc hdir =>
      rename_i links mode place' c rest slash
      by_cases heq : place' ++ [c] = place
      · exact Or.inr ⟨_, _, _, _, _, rfl, heq, hc⟩
      · exact Or.inl (.dir hc (by rw [hget heq, hdir]))
  | link hc hlink =>
      rename_i links place' c rest slash target
      by_cases heq : place' ++ [c] = place
      · exact Or.inr ⟨_, _, _, _, _, rfl, heq, hc⟩
      · exact Or.inl (.link hc (by rw [hget heq, hlink]))

/-- Steps are steps without the entry as well, or come to where it is. -/
theorem Steps.erase_or
    (hplace : place ≠ [])
    (h : t.Steps s s') :
    (t.erase place).Steps s s' ∨
      ∃ links directory c names slash,
        (t.erase place).Steps s ⟨links, directory, c :: names, slash⟩ ∧
          directory ++ [c] = place ∧ Ordinary c := by
  induction h with
  | refl =>
      exact Or.inl .refl
  | tail _ hstep ih =>
      rcases ih with hsteps | hblocked
      · rcases hstep.erase_or hplace with hstep | ⟨links, directory, c, names, slash, rfl, heq, hc⟩
        · exact Or.inl (hsteps.tail hstep)
        · exact Or.inr ⟨links, directory, c, names, slash, hsteps, heq, hc⟩
      · exact Or.inr hblocked

/-- What is put in the place of an entry leaves the ways that do without it. -/
theorem Becomes.erase_waysIn
    {entry : Entry}
    (hplace : place ≠ [])
    (h : t.Becomes place entry t') :
    (t.erase place).WaysIn t' := by
  intro other found hfound _
  rw [get?_erase _ hplace] at hfound
  split at hfound
  · cases hfound
  · next hne => rw [h.get_of_ne hne, hfound]

/-! ## Trees without links -/

section

variable
  {links links' : Nat}
  {place' : Place}
  {names names' : List Name}
  {slash slash' : Bool}

/-- Without links the steps follow the names. -/
theorem Steps.follow
    (hlinks : ∀ q target, t.get? q ≠ some (.link target))
    (h : t.Steps ⟨links, place, names, slash⟩ ⟨links', place', names', slash'⟩) :
    slash' = slash ∧ ∃ front, names = front ++ names' ∧ t.follow place front = some place' := by
  generalize hs : (⟨links, place, names, slash⟩ : Stage) = s at h
  generalize hs' : (⟨links', place', names', slash'⟩ : Stage) = s' at h
  induction h using Relation.ReflTransGen.head_induction_on
    generalizing links place names slash with
  | refl =>
      cases hs.trans hs'.symm
      exact ⟨rfl, [], rfl, rfl⟩
  | head hstep _ ih =>
      subst hs
      cases hstep with
      | here =>
          obtain ⟨hslash, front, hnames, hfollow⟩ := ih rfl
          exact ⟨hslash, Path.here :: front, by rw [hnames, List.cons_append],
            by rw [follow_here, hfollow]⟩
      | up =>
          obtain ⟨hslash, front, hnames, hfollow⟩ := ih rfl
          exact ⟨hslash, Path.up :: front, by rw [hnames, List.cons_append],
            by rw [follow_up, hfollow]⟩
      | dir hc hdir =>
          obtain ⟨hslash, front, hnames, hfollow⟩ := ih rfl
          exact ⟨hslash, _ :: front, by rw [hnames, List.cons_append],
            by rw [follow_dir hc.notHere hc.notUp hc.fits ⟨_, hdir⟩, hfollow]⟩
      | link _ hlink =>
          exact absurd hlink (hlinks _ _)

/-- Names that are followed are steps. -/
theorem steps_of_follow
    (h : t.follow place names = some place')
    (links : Nat)
    (slash : Bool) :
    t.Steps ⟨links, place, names, slash⟩ ⟨links, place', [], slash⟩ := by
  induction names generalizing place with
  | nil =>
      obtain rfl := Option.some.inj h
      exact .refl
  | cons c rest ih =>
      rcases follow_cons_cases h with
        ⟨rfl, hrest⟩ | ⟨rfl, hrest⟩ | ⟨hhere, hup, hfits, ⟨mode, hmode⟩, hrest⟩
      · exact .head .here (ih hrest)
      · exact .head .up (ih hrest)
      · exact .head (.dir ⟨hhere, hup, hfits⟩ hmode) (ih hrest)

end

end FileTree

end Keybox

import Keybox.Proofs.FileTree.Writing

/-!
# Where a written file is

Plain writing follows the path to its end and puts the file there, so the path leads to the file
afterwards. Atomic writing gives the file the last name of the path instead of what had the name.
That can be a link which the path itself goes through: then the path does not lead to the file, and
to nothing else either. In all other trees it leads to the file.
-/

namespace Keybox

namespace FileTree

variable
  {t t' : FileTree}
  {place directory : Place}
  {name : Name}
  {path : Text}
  {serial mode : Nat}
  {content : Bytes}

/-- The way to the directory of a path's last name does not need the entry of that name. -/
def KeepsWay
    (t : FileTree)
    (path : Text) : Prop :=
  ∀ directory name slash, t.parentOf path = .ok (directory, .name name slash) →
    (t.erase (directory ++ [name])).parentOf path = t.parentOf path

theorem Admits.keepsWay_iff
    (h : t.Admits path directory name) :
    t.KeepsWay path ↔
      (t.erase (directory ++ [name])).parentOf path = .ok (directory, .name name false) := by
  constructor
  · intro hkeeps
    rw [hkeeps directory name false h.parentOf, h.parentOf]
  · intro hparent directory' name' slash h'
    rw [h.parentOf] at h'
    obtain ⟨rfl, hlast⟩ := Prod.mk.inj (Except.ok.inj h')
    obtain ⟨rfl, -⟩ := Last.name.inj hlast
    rw [hparent, h.parentOf]

/-- Only a link can be needed on the way to itself. -/
theorem Admits.exists_link
    (h : t.Admits path directory name)
    (hkeeps : ¬ t.KeepsWay path) :
    ∃ target, t.get? (directory ++ [name]) = some (.link target) := by
  by_contra hnone
  rw [not_exists] at hnone
  have hways : t.WaysIn (t.erase (directory ++ [name])) := by
    intro place entry hentry hnotFile
    rw [get?_erase _ (by simp), if_neg, hentry]
    rintro rfl
    cases entry with
    | dir mode =>
        exact h.notDir ⟨mode, hentry⟩
    | file serial mode content =>
        exact hnotFile serial mode content rfl
    | link target =>
        exact hnone target hentry
  exact hkeeps (h.keepsWay_iff.mpr (parentOf_mono hways rfl h.parentOf))

/-- A path leads to the file at the place that it opened. -/
theorem Opens.resolve_becomes
    (hwf : t.WellFormed)
    (h : t.Opens path place)
    (hb : t.Becomes place (.file serial mode content) t') :
    t'.resolve .reading path = .ok (.entry place (.file serial mode content)) := by
  have hways : t.WaysIn t' := hb.waysIn fun old hold => by
    rcases h.target hwf with hnone | ⟨serial, mode, content, hfile, -⟩
    · rw [hnone] at hold
      cases hold
    · rw [hfile] at hold
      exact ⟨serial, mode, content, (Option.some.inj hold).symm⟩
  obtain ⟨links, directory, c, rfl, hc, -, hsteps⟩ := h.exists_steps hwf
  rw [resolve_eq_goOn h.routeOf_eq, firstStage_congr hb.workingDir, goOn_steps (hsteps.mono hways)]
  exact goOn_file hc hb.get_self .reading

/-- A path leads to the file that was given its last name, if it keeps its way. -/
theorem Admits.resolve_becomes
    (h : t.Admits path directory name)
    (hkeeps : t.KeepsWay path)
    (hb : t.Becomes (directory ++ [name]) (.file serial mode content) t') :
    t'.resolve .reading path = .ok (.entry (directory ++ [name]) (.file serial mode content)) := by
  have hparent : t'.parentOf path = .ok (directory, .name name false) :=
    parentOf_mono (hb.erase_waysIn (by simp)) hb.workingDir (h.keepsWay_iff.mp hkeeps)
  exact resolve_of_parentOf hparent fun links => goOn_file h.ordinary hb.get_self .reading

/-- A path that does not keep its way comes to the file before its end. -/
theorem Admits.resolve_of_not_keepsWay
    (h : t.Admits path directory name)
    (hkeeps : ¬ t.KeepsWay path)
    (hb : t.Becomes (directory ++ [name]) (.file serial mode content) t') :
    t'.resolve .reading path = .error .notDirectory := by
  have hne : directory ++ [name] ≠ [] := by simp
  obtain ⟨hr, hlast, hdirectory, links, slash, hsteps⟩ := parentOf_eq_ok_iff.mp h.parentOf
  rcases hsteps.erase_or hne with hsteps | ⟨links', before, c, names, slash', hsteps, heq, hc⟩
  · -- Steps that do without the entry lead to the directory after all.
    refine absurd (h.keepsWay_iff.mpr (parentOf_eq_ok_iff.mpr ⟨hr, hlast, ?_, links, slash, ?_⟩))
      hkeeps
    · obtain ⟨mode, hmode⟩ := hdirectory
      exact ⟨mode, by rw [get?_erase _ hne, if_neg (by simp), hmode]⟩
    · exact hsteps
  · have hways := hb.erase_waysIn hne
    have hfront : t'.Steps (t'.frontStage path) ⟨links', before, c :: names, slash'⟩ := by
      rw [frontStage_congr hb.workingDir]
      exact hsteps.mono hways
    rw [resolve_eq_goOn hr, goOn_firstStage hlast hfront]
    apply goOn_through_file hc
    · rw [heq]
      exact hb.get_self
    · simp

/-- The place at which a way of writing puts the file of a path. -/
inductive Takes
    (t : FileTree)
    (path : Text) : Bool → Place → Prop
  | plain
      {place : Place}
      (opens : t.Opens path place) :
      Takes t path false place
  | atomic
      {directory : Place}
      {name : Name}
      (admits : t.Admits path directory name) :
      Takes t path true (directory ++ [name])

/-- A path leads to the file that was put at its place in either way, if it keeps its way when that
is the atomic one. -/
theorem Takes.resolve_becomes
    {atomic : Bool}
    (hwf : t.WellFormed)
    (h : t.Takes path atomic place)
    (hkeeps : atomic = true → t.KeepsWay path)
    (hb : t.Becomes place (.file serial mode content) t') :
    t'.resolve .reading path = .ok (.entry place (.file serial mode content)) := by
  cases h with
  | plain hopens =>
      exact hopens.resolve_becomes hwf hb
  | atomic hadmits =>
      exact hadmits.resolve_becomes (hkeeps rfl) hb

end FileTree

end Keybox

import Keybox.Proofs.FileTree.Growth

/-!
# Operations keep trees well-formed

Every operation on files leaves a well-formed tree well-formed, whether it succeeds or fails: one
that makes an entry makes it in a directory, one that removes an entry removes no directory, and a
new file has a new serial number.
-/

namespace Keybox

namespace FileTree

variable
  {t t' : FileTree}
  {place : Place}
  {path : Text}

theorem Unchanged.wellFormed
    (h : t.Unchanged t')
    (hwf : t.WellFormed) :
    t'.WellFormed where
  parent := by
    intro place name entry hget
    rw [h.get] at hget
    obtain ⟨mode, hmode⟩ := hwf.parent place name entry hget
    exact ⟨mode, by rw [h.get, hmode]⟩
  fresh := by
    intro place serial mode content hget
    rw [h.get] at hget
    exact Nat.lt_of_lt_of_le (hwf.fresh place serial mode content hget) h.nextSerial
  unique := by
    intro place other serial mode content mode' content' hplace hother
    rw [h.get] at hplace hother
    exact hwf.unique place other serial mode content mode' content' hplace hother
  workingDir := by
    obtain ⟨mode, hmode⟩ := hwf.workingDir
    exact ⟨mode, by rw [h.workingDir, h.get, hmode]⟩
  workingNames := by
    rw [h.workingDir]
    exact hwf.workingNames

/-- Content for an open file goes to the one file that has the serial number, if it is there. -/
theorem WellFormed.append
    (hwf : t.WellFormed)
    (serial : Nat)
    (content : Bytes) :
    (t.append serial content).WellFormed := by
  by_cases hfile : ∃ place mode old, t.get? place = some (.file serial mode old)
  · obtain ⟨place, mode, old, hfile⟩ := hfile
    rcases List.eq_nil_or_concat place with rfl | ⟨directory, name, rfl⟩
    · exact absurd t.isDir_root (not_isDir_of_file hfile)
    · rw [List.concat_eq_append] at hfile
      exact hwf.becomes_file (hwf.parent _ _ _ hfile) (becomes_append hwf hfile content)
        (not_isDir_of_file hfile) (Or.inr ⟨mode, old, hfile⟩)
  · have hsame : t.Unchanged (t.append serial content) := by
      refine ⟨fun place => ?_, rfl, Nat.le_refl _⟩
      rw [get?_append]
      exact map_onSerial_of_ne fun mode old hold => hfile ⟨place, mode, old, hold⟩
    exact hsame.wellFormed hwf

/-- A tree without one of its files or links. -/
theorem WellFormed.erase
    (hwf : t.WellFormed)
    (hne : place ≠ [])
    (hplace : ¬ t.IsDir place) :
    (t.erase place).WellFormed := by
  have hget : ∀ {other : Place} {entry : Entry},
      (t.erase place).get? other = some entry → t.get? other = some entry := by
    intro other entry hother
    rw [get?_erase _ hne] at hother
    split at hother
    · cases hother
    · exact hother
  have hdirs : ∀ {other : Place}, t.IsDir other → (t.erase place).IsDir other := by
    rintro other ⟨mode, hmode⟩
    refine ⟨mode, ?_⟩
    rw [get?_erase _ hne, if_neg, hmode]
    rintro rfl
    exact hplace ⟨mode, hmode⟩
  exact {
    parent := fun directory name entry hentry =>
      hdirs (hwf.parent directory name entry (hget hentry))
    fresh := fun other serial mode content hfile =>
      hwf.fresh other serial mode content (hget hfile)
    unique := fun other other' serial mode content mode' content' hfile hfile' =>
      hwf.unique other other' serial mode content mode' content' (hget hfile) (hget hfile')
    workingDir := hdirs hwf.workingDir
    workingNames := hwf.workingNames }

theorem WellFormed.remove
    (hwf : t.WellFormed)
    (h : t.remove path = .ok t') :
    t'.WellFormed := by
  rw [FileTree.remove, bind_eq_ok_iff] at h
  obtain ⟨⟨directory, last⟩, -, h⟩ := h
  cases last with
  | special =>
      cases h
  | name name slash =>
      dsimp only at h
      split at h
      · cases h
      · split at h
        · cases h
        · cases h
        · next entry hnotDir hentry =>
          split at h
          · cases h
          · obtain rfl := Except.ok.inj h
            refine hwf.erase (by simp) ?_
            rintro ⟨mode, hmode⟩
            rw [hentry] at hmode
            exact hnotDir mode (Option.some.inj hmode)

theorem WellFormed.makeLink
    (hwf : t.WellFormed)
    {target : Text}
    (h : t.makeLink target path = .ok t') :
    t'.WellFormed := by
  rw [FileTree.makeLink, bind_eq_ok_iff] at h
  obtain ⟨_, -, h⟩ := h
  obtain ⟨directory, name, slash, hparent, -, hnone, rfl⟩ := makeEntry_eq_ok h
  obtain ⟨-, -, hdirectory, -⟩ := parentOf_eq_ok_iff.mp hparent
  exact hwf.becomes (becomes_set (by simp) _) hdirectory
    (fun hdir => absurd hdir (not_isDir_of_none hnone)) (by rintro _ _ _ ⟨⟩)

theorem WellFormed.openAppend
    (hwf : t.WellFormed)
    {mode serial : Nat}
    (h : t.openAppend path mode = .ok (serial, t')) :
    t'.WellFormed := by
  rw [FileTree.openAppend, bind_eq_ok_iff] at h
  obtain ⟨target, hresolve, h⟩ := h
  split at h
  · split at h
    · obtain ⟨-, rfl⟩ := Prod.mk.inj (Except.ok.inj h)
      exact hwf
    · cases h
  · cases h
  · next directory name =>
    obtain ⟨-, rfl⟩ := Prod.mk.inj (Except.ok.inj h)
    exact (Opens.vacant hresolve).wellFormed hwf (becomes_addFile (by simp) mode)
      (Or.inl ⟨rfl, Nat.lt_succ_self _⟩)

end FileTree

namespace FileAct

open FileTree

theorem preserves_ofStep
    {α : Type}
    {f : FileTree → Except FileFault (α × FileTree)}
    (h : ∀ t a t', t.WellFormed → f t = .ok (a, t') → t'.WellFormed) :
    Preserves WellFormed (ofStep f) := by
  intro t hwf
  rw [run_ofStep]
  cases hstep : f t with
  | error fault =>
      exact hwf
  | ok r =>
      exact h t r.1 r.2 hwf hstep

theorem preserves_onPath
    {α : Type}
    {path : Text}
    {f : FileTree → Except Errno (α × FileTree)}
    (h : ∀ t a t', t.WellFormed → f t = .ok (a, t') → t'.WellFormed) :
    Preserves WellFormed (onPath path f) := by
  refine preserves_ofStep fun t a t' hwf hrun => ?_
  simp only [bind_eq_ok_iff, FileFault.named, mapError_eq_ok_iff] at hrun
  obtain ⟨-, -, hstep⟩ := hrun
  exact h t a t' hwf hstep

theorem preserves_read
    (path : Text) :
    Preserves WellFormed (read path) := by
  refine preserves_onPath fun t content t' hwf h => ?_
  obtain ⟨_, -, heq⟩ := map_eq_ok_iff.mp h
  obtain ⟨-, rfl⟩ := Prod.mk.inj heq
  exact hwf

theorem preserves_openAppend
    (path : Text) :
    Preserves WellFormed (openAppend path) :=
  preserves_onPath fun _ _ _ hwf h => hwf.openAppend h

theorem preserves_remove
    (path : Text) :
    Preserves WellFormed (remove path) := by
  refine preserves_onPath fun t _ t' hwf h => ?_
  obtain ⟨_, hremove, heq⟩ := map_eq_ok_iff.mp h
  obtain ⟨-, rfl⟩ := Prod.mk.inj heq
  exact hwf.remove hremove

theorem preserves_makeLink
    (target path : Text) :
    Preserves WellFormed (makeLink target path) := by
  refine preserves_ofStep fun t _ t' hwf h => ?_
  simp only [bind_eq_ok_iff, FileFault.named, mapError_eq_ok_iff, map_eq_ok_iff] at h
  obtain ⟨-, -, -, -, made, hlink, heq⟩ := h
  obtain ⟨-, rfl⟩ := Prod.mk.inj heq
  exact hwf.makeLink hlink

theorem preserves_makeDirectories
    (path : Text)
    (mode : Nat) :
    Preserves WellFormed (makeDirectories path mode) :=
  fun t hwf => (growsOn_makeEachWithin growsOn_makeDirectory missingLimit path mode t hwf).2

theorem preserves_ensureDirectories
    (path : Text)
    (mode : Nat) :
    Preserves WellFormed (ensureDirectories path mode) :=
  fun t hwf => (growsOn_ensureDirectories path mode t hwf).2

theorem preserves_writePlain
    (path : Text)
    (mode openMode : Nat)
    (content : Bytes) :
    Preserves WellFormed (writePlain path mode openMode content) := by
  intro t hwf
  rcases run_writePlain_error_or t path mode openMode content with
    ⟨_, hrun⟩ | ⟨hcheck, place, hopens⟩
  · rwa [hrun]
  · obtain ⟨_, _, hrun, -, hwf'⟩ := run_writePlain hwf hcheck hopens mode openMode content
    rwa [hrun]

theorem preserves_writeAtomic
    (path : Text)
    (content : Bytes) :
    Preserves WellFormed (writeAtomic path content) := by
  intro t hwf
  rcases run_writeAtomic_error_or hwf path content with
    ⟨_, _, hrun, hunchanged⟩ | ⟨hcheck, ⟨directory, name, hadmits⟩, s, t₁, hmake⟩
  · rw [hrun]
    exact hunchanged.wellFormed hwf
  · obtain ⟨_, hrun, -, hwf'⟩ := run_writeAtomic hwf hcheck hadmits hmake content
    rwa [hrun]

end FileAct

end Keybox

import Keybox.Proofs.Action
import Keybox.Proofs.Except

/-!
# Actions on files

When the actions on paths succeed, what they leave behind, and that one that fails on its path
leaves everything as it is.
-/

namespace Keybox

namespace FileAct

variable {α : Type}

theorem run_ofStep
    (f : FileTree → Except FileFault (α × FileTree))
    (t : FileTree) :
    (ofStep f).run t =
      match f t with
      | .error e => (.error e, t)
      | .ok (a, t') => (.ok a, t') :=
  rfl

theorem run_ofStep_eq_ok_iff
    {f : FileTree → Except FileFault (α × FileTree)}
    {t t' : FileTree}
    {a : α} :
    (ofStep f).run t = (.ok a, t') ↔ f t = .ok (a, t') := by
  rw [run_ofStep]
  cases f t with
  | error e =>
      constructor
      · intro h
        cases h
      · intro h
        cases h
  | ok r =>
      rcases r with ⟨b, u⟩
      constructor
      · intro h
        cases h
        rfl
      · intro h
        cases h
        rfl

/-- A step that fails changes nothing. -/
theorem tree_of_run_ofStep_error
    {f : FileTree → Except FileFault (α × FileTree)}
    {t t' : FileTree}
    {fault : FileFault}
    (h : (ofStep f).run t = (.error fault, t')) :
    t' = t := by
  rw [run_ofStep] at h
  split at h <;> cases h
  rfl

theorem run_onPath_eq_ok_iff
    {path : Text}
    {f : FileTree → Except Errno (α × FileTree)}
    {t t' : FileTree}
    {a : α} :
    (onPath path f).run t = (.ok a, t') ↔
      FileFault.checkPath path = .ok () ∧ f t = .ok (a, t') := by
  rw [onPath, run_ofStep_eq_ok_iff]
  simp only [bind_eq_ok_iff, FileFault.named, mapError_eq_ok_iff]
  constructor
  · rintro ⟨⟨⟩, hcheck, hf⟩
    exact ⟨hcheck, hf⟩
  · rintro ⟨hcheck, hf⟩
    exact ⟨(), hcheck, hf⟩

/-- An error of the file system names the path it was asked about. -/
theorem run_onPath_of_error
    {path : Text}
    {f : FileTree → Except Errno (α × FileTree)}
    {t : FileTree}
    {errno : Errno}
    (hcheck : FileFault.checkPath path = .ok ())
    (hf : f t = .error errno) :
    (onPath path f).run t = (.error (.system errno path none), t) := by
  rw [onPath, run_ofStep, hcheck, hf]
  rfl

/-- A path that is no file name is refused. -/
theorem run_onPath_of_refused
    {path : Text}
    {fault : FileFault}
    (hcheck : FileFault.checkPath path = .error fault)
    (f : FileTree → Except Errno (α × FileTree))
    (t : FileTree) :
    (onPath path f).run t = (.error fault, t) := by
  rw [onPath, run_ofStep, hcheck]
  rfl

/-- What reading a file gives. -/
theorem run_read_fst
    (path : Text)
    (t : FileTree) :
    ((read path).run t).1 =
      (do
        FileFault.checkPath path
        FileFault.named path none (t.contentAt path)) := by
  rw [read, onPath, run_ofStep]
  cases FileFault.checkPath path with
  | error fault =>
      rfl
  | ok =>
      cases t.contentAt path <;> rfl

/-- Reading a file changes nothing. -/
theorem run_read_tree
    (path : Text)
    (t : FileTree) :
    ((read path).run t).2 = t := by
  rcases hrun : (read path).run t with ⟨r, t'⟩
  cases r with
  | ok content =>
      obtain ⟨-, hread⟩ := run_onPath_eq_ok_iff.mp hrun
      obtain ⟨_, -, heq⟩ := map_eq_ok_iff.mp hread
      exact (congrArg Prod.snd heq).symm
  | error fault =>
      exact tree_of_run_ofStep_error hrun

end FileAct

namespace FileTree

/-- Opening a file for writing at its end changes nothing but that a new one may be there. -/
theorem openAppend_cases
    {t t' : FileTree}
    {path : Text}
    {mode serial : Nat}
    (h : t.openAppend path mode = .ok (serial, t')) :
    t' = t ∨ ∃ directory name, t' = t.addFile (directory ++ [name]) mode := by
  rw [openAppend, bind_eq_ok_iff] at h
  obtain ⟨target, -, h⟩ := h
  split at h
  · split at h
    · exact Or.inl (congrArg Prod.snd (Except.ok.inj h)).symm
    · cases h
  · cases h
  · next directory name =>
    exact Or.inr ⟨directory, name, (congrArg Prod.snd (Except.ok.inj h)).symm⟩

end FileTree

end Keybox

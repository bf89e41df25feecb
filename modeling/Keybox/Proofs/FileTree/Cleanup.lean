import Keybox.Proofs.FileTree.Writing
import Keybox.Proofs.Numeral

/-!
# Temporary files by their paths

A temporary file is known by its place, and by the path that it was made under: the path of its
directory and its name. While the file is there, filled or not, that path leads to it, and removing
what the path leads to removes the file at the place. This holds as well where the path of the
directory goes through links.
-/

namespace Keybox

namespace FileTree

variable
  {t t₁ : FileTree}
  {s : Scratch}
  {parent : Text}

/-! ## Names of temporary files -/

theorem isAscii_of_mem_scratchName
    {n : Nat}
    {d : CodePoint}
    (hd : d ∈ scratchName n) :
    d.isAscii = true ∧ d ≠ 0 := by
  have hlit : ∀ c ∈ lit ".tmp-" ++ lit ".json", c.isAscii = true ∧ c ≠ 0 := by
    have hall : ((lit ".tmp-" ++ lit ".json").all fun c => c.isAscii && c != 0) = true := by
      decide
    intro c hc
    simpa using List.all_eq_true.mp hall c hc
  rw [scratchName_eq, scratchStem] at hd
  simp only [List.mem_append] at hd
  rcases hd with (hd | hd | hd) | hd
  · exact hlit d (List.mem_append_left _ hd)
  · rw [List.eq_of_mem_replicate hd]
    decide
  · have hdigit := Text.isDigit_of_mem_ofNat hd
    rw [CodePoint.isDigit, decide_eq_true_eq] at hdigit
    refine ⟨?_, ?_⟩
    · rw [CodePoint.isAscii, decide_eq_true_eq]
      omega
    · rintro rfl
      exact absurd hdigit.1 (by decide)
  · exact hlit d (List.mem_append_right _ hd)

/-- With a number of no more than two hundred digits the name is short enough for a file. -/
theorem isName_scratchName
    {n : Nat}
    (hn : n < 10 ^ 200) :
    FileName.IsName (scratchName n) := by
  have hfirst : (scratchName n).take 2 = lit ".t" := rfl
  have hlength : (scratchName n).length ≤ nameLimit := by
    have hdigits := Text.length_ofNat_le (by decide) hn
    rw [scratchName_eq, scratchStem]
    simp only [List.length_append, List.length_replicate]
    have hends : (lit ".tmp-").length = 5 ∧ (lit ".json").length = 5 := by decide
    rw [nameLimit]
    omega
  apply FileName.isName_of_scalar
  · exact (isComponent_scratchName n).ne_nil
  · intro d hd
    exact Utf8.isSurrogate_of_isAscii (isAscii_of_mem_scratchName hd).1
  · exact slash_notMem_scratchName n
  · intro hnull
    exact (isAscii_of_mem_scratchName hnull).2 rfl
  · intro heq
    rw [heq] at hfirst
    exact absurd hfirst (by decide)
  · intro heq
    rw [heq] at hfirst
    exact absurd hfirst (by decide)
  · rwa [FileName.length_of_isAscii fun d hd => (isAscii_of_mem_scratchName hd).1]

/-! ## Paths of temporary files -/

/-- The path of a temporary file leads to its place. -/
theorem parentOf_of_makeScratch
    (hsize : t.entries.length < 10 ^ 200)
    (hmake : t.makeScratch parent = .ok (s, t₁)) :
    FileFault.checkPath s.path = .ok () ∧ ∃ directory name,
      t.parentOf s.path = .ok (directory, .name name false) ∧ Ordinary name ∧
        s.place = directory ++ [name] := by
  rw [makeScratch, bind_eq_ok_iff] at hmake
  obtain ⟨⟨⟩, hcheck, hmake⟩ := hmake
  split at hmake
  · cases hmake
  · next directory hdirectory =>
    dsimp only at hmake
    split at hmake
    · cases hmake
    · next hlong =>
      obtain ⟨rfl, -⟩ := Prod.mk.inj (Except.ok.inj hmake)
      obtain ⟨k, hk, -, htaken⟩ := newScratchName_spec t directory
      have hname : FileName.IsName (t.newScratchName directory) := by
        rw [hk]
        exact isName_scratchName (Nat.lt_of_le_of_lt (le_length_entries htaken) hsize)
      have hshort := Nat.lt_of_not_le hlong
      have hparent := parentOf_join hdirectory hname hshort
      have hne : parent ≠ [] := by
        rw [directoryAt, bind_eq_ok_iff] at hdirectory
        obtain ⟨_, hresolve, -⟩ := hdirectory
        exact (routeOf_eq_ok_iff.mp (resolve_eq_ok_iff.mp hresolve).1).1
      exact ⟨(isPath_join hcheck hne hname hshort).fileName, directory, _, hparent,
        ⟨hname.notHere, hname.notUp, hname.fits⟩, rfl⟩

end FileTree

namespace FileAct

open FileTree

variable
  {t t₁ : FileTree}
  {s : Scratch}
  {parent : Text}

/-- **A temporary file is removed by its path.** While its name is short enough, the path of a
temporary file that was filled leads to it, and to remove what the path leads to is to drop the
file. -/
theorem run_remove_scratch
    (hwf : t.WellFormed)
    (hsize : t.entries.length < 10 ^ 200)
    (hmake : t.makeScratch parent = .ok (s, t₁))
    (content : Bytes) :
    isThere (t₁.append s.serial content) s.path = true ∧
      (remove s.path).run (t₁.append s.serial content) =
        (dropScratch s).run (t₁.append s.serial content) := by
  obtain ⟨hcheck, directory, name, hparent, hname, hplace⟩ := parentOf_of_makeScratch hsize hmake
  have hmakes := makes_of_makeScratch hmake
  obtain ⟨hb, -⟩ := hmakes.becomes_append hwf content
  have hways : t.WaysIn (t₁.append s.serial content) := hb.waysIn fun old hold => by
    rw [hmakes.free] at hold
    cases hold
  have hparent' := parentOf_mono hways hb.workingDir hparent
  have hfile := hb.get_self
  rw [hplace] at hfile
  constructor
  · have hresolve := resolve_of_parentOf hparent' fun links => goOn_file hname hfile .reading
    rw [isThere, hcheck]
    dsimp only
    rw [FileTree.isThere, hresolve]
  · have hremove : (t₁.append s.serial content).remove s.path =
        .ok ((t₁.append s.serial content).erase s.place) := by
      rw [FileTree.remove, hparent', ok_bind]
      dsimp only
      rw [if_neg (Nat.not_lt.mpr hname.fits), hfile, hplace]
      rfl
    have hdrop : (dropScratch s).run (t₁.append s.serial content) =
        (.ok (), (t₁.append s.serial content).erase s.place) := rfl
    rw [hdrop, remove, run_onPath_eq_ok_iff, hremove]
    exact ⟨hcheck, rfl⟩

end FileAct

end Keybox

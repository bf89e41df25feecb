import Keybox.Proofs.FileTree.LinkFree
import Keybox.Proofs.Store.WrittenFile

/-!
# The two ways of writing agree

In a tree without links, atomic and plain writing are done for the same paths, of whatever form, and
leave the same entries. There is one exception: a file that its owner may not write is not written
in place, while atomic writing puts another file there.

**Results.** Unless the path leads to such a file, both ways of writing a pair are done or both
fail, and they show the same tree afterwards. If it does, plain writing fails and atomic writing is
done.
-/

namespace Keybox

/-- What is seen of an entry: all but the serial number of a file. -/
def Entry.shown : Entry → Entry
  | .file _ mode content => .file 0 mode content
  | e => e

namespace FileTree

/-- Two trees with the same entries, as far as they are seen. -/
structure ShowsSame
    (t t' : FileTree) : Prop where
  get : ∀ place, (t.get? place).map Entry.shown = (t'.get? place).map Entry.shown
  workingDir : t.workingDir = t'.workingDir

theorem Unchanged.showsSame
    {t t' : FileTree}
    (h : t.Unchanged t') :
    t'.ShowsSame t :=
  ⟨fun place => by rw [h.get], h.workingDir⟩

/-- Files with the same mode and content at the same place are seen as the same. -/
theorem Becomes.showsSame
    {t t₁ t₂ : FileTree}
    {place : Place}
    {serial₁ serial₂ mode : Nat}
    {content : Bytes}
    (h₁ : t.Becomes place (.file serial₁ mode content) t₁)
    (h₂ : t.Becomes place (.file serial₂ mode content) t₂) :
    t₁.ShowsSame t₂ := by
  refine ⟨?_, h₁.workingDir.trans h₂.workingDir.symm⟩
  intro other
  rw [h₁.get, h₂.get]
  split
  · rfl
  · rfl

end FileTree

namespace Store

open FileTree

variable
  {w : World}
  {t : FileTree}
  {path : Text}

/-! ## Files -/

/-- Two runs of which both are done or both fail, with the same tree to be seen. -/
def BothOrNeither
    (atomic plain : Except FileFault Unit × FileTree) : Prop :=
  ((∃ t₁, atomic = (.ok (), t₁)) ∧ (∃ t₂, plain = (.ok (), t₂)) ∨
    (∃ f₁ t₁, atomic = (.error f₁, t₁)) ∧ ∃ f₂ t₂, plain = (.error f₂, t₂)) ∧
      atomic.2.ShowsSame plain.2

theorem writeFile_bothOrNeither
    (hwf : t.WellFormed)
    (hlinks : t.LinkFree)
    (hroom : t.HasRoom path)
    (hdenies : ¬ t.Denies path)
    (p : KeyPair) :
    BothOrNeither ((writeFile path true p).run t) ((writeFile path false p).run t) := by
  have hatomic : (writeFile path true p).run t =
      (FileAct.writeAtomic path (contentOf p)).run t := rfl
  have hplain : (writeFile path false p).run t =
      (FileAct.writePlain path fileMode fileMode (contentOf p)).run t := rfl
  rw [hatomic, hplain]
  by_cases hdone : FileFault.checkPath path = .ok () ∧
      ∃ directory name, t.Admits path directory name
  · obtain ⟨hcheck, directory, name, hadmits⟩ := hdone
    obtain ⟨s, t₁, hmake⟩ := hadmits.exists_makeScratch hwf hlinks hcheck hroom
    obtain ⟨_, hrun₁, hb₁, -⟩ := FileAct.run_writeAtomic hwf hcheck hadmits hmake (contentOf p)
    obtain ⟨_, _, hrun₂, hb₂, -⟩ := FileAct.run_writePlain hwf hcheck
      (hadmits.opens hlinks hcheck hdenies) fileMode fileMode (contentOf p)
    rw [hrun₁, hrun₂]
    exact ⟨Or.inl ⟨⟨_, rfl⟩, ⟨_, rfl⟩⟩, hb₁.showsSame hb₂⟩
  · rcases FileAct.run_writeAtomic_error_or hwf path (contentOf p) with
      ⟨f₁, _, hrun₁, hunchanged⟩ | ⟨hcheck, hadmits, -⟩
    · rcases FileAct.run_writePlain_error_or t path fileMode fileMode (contentOf p) with
        ⟨f₂, hrun₂⟩ | ⟨hcheck, place, hopens⟩
      · rw [hrun₁, hrun₂]
        exact ⟨Or.inr ⟨⟨f₁, _, rfl⟩, ⟨f₂, _, rfl⟩⟩, hunchanged.showsSame⟩
      · exact absurd ⟨hcheck, hopens.exists_admits hwf hlinks⟩ hdone
    · exact absurd ⟨hcheck, hadmits⟩ hdone

/-- A file that its owner may not write is replaced by atomic writing only. -/
theorem writeFile_of_denies
    (hwf : t.WellFormed)
    (hlinks : t.LinkFree)
    (hroom : t.HasRoom path)
    (hdenies : t.Denies path)
    (p : KeyPair) :
    (∃ t₁, (writeFile path true p).run t = (.ok (), t₁)) ∧
      (writeFile path false p).run t = (.error (.system .noPermission path none), t) := by
  obtain ⟨hcheck, place, serial, mode, content, hleads, hwrites⟩ := hdenies
  constructor
  · obtain ⟨directory, name, hadmits⟩ := admits_of_resolve hwf hlinks hleads (by rintro _ _ ⟨⟩)
    obtain ⟨s, t₁, hmake⟩ := hadmits.exists_makeScratch hwf hlinks hcheck hroom
    obtain ⟨t', hrun, -⟩ := FileAct.run_writeAtomic hwf hcheck hadmits hmake (contentOf p)
    exact ⟨t', hrun⟩
  · have hopen : (FileAct.openEmpty path fileMode).run t =
        (.error (.system .noPermission path none), t) := by
      apply FileAct.run_onPath_of_error hcheck
      rw [openEmpty, hleads, ok_bind]
      dsimp only
      rw [if_neg (by simp [hwrites])]
    change (FileAct.writePlain path fileMode fileMode (contentOf p)).run t = _
    rw [FileAct.writePlain, run_bind_of_error hopen]

/-! ## Pairs -/

/-- A world with a file that its owner may read only. -/
def readOnlyWorld : World :=
  { emptyWorld with tree :=
      { emptyWorld.tree.set [lit "k.json"] (.file 0 0o400 []) with nextSerial := 1 } }

theorem becomes_readOnlyWorld :
    emptyWorld.tree.Becomes ([] ++ [lit "k.json"]) (.file 0 0o400 []) readOnlyWorld.tree :=
  ⟨get?_set _ (by simp) _, rfl, Nat.zero_le _⟩

theorem wellFormed_readOnlyWorld :
    readOnlyWorld.tree.WellFormed :=
  site_emptyWorld.wellFormed.becomes_file (isDir_root _) becomes_readOnlyWorld
    (not_isDir_of_none rfl) (Or.inl ⟨rfl, Nat.one_pos⟩)

theorem linkFree_readOnlyWorld :
    readOnlyWorld.tree.LinkFree := by
  intro place target hlink
  rw [becomes_readOnlyWorld.get] at hlink
  split at hlink
  · cases hlink
  · exact site_emptyWorld.noLinks place target hlink

end Store

end Keybox

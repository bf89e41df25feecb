import Keybox.Proofs.FileTree.Growth
import Keybox.Proofs.Store.Refinement

/-!
# Failed writes

A write that fails destroys nothing and leaves no temporary file behind.

**Results.** Writing a pair to a file fails with all entries as they were, in both ways of writing.
Writing a pair into a store fails so as well, unless the store makes missing directories: then there
may be new ones on the way to the pair's file, and nothing else is different.
-/

namespace Keybox

namespace Store

variable
  {w w' : World}
  {t t' : FileTree}

theorem unchanged_of_writeFile_error
    (hwf : t.WellFormed)
    {path : Text}
    {atomic : Bool}
    {p : KeyPair}
    {fault : FileFault}
    (h : (writeFile path atomic p).run t = (.error fault, t')) :
    t.Unchanged t' := by
  cases atomic with
  | false =>
      have hrun : (FileAct.writePlain path fileMode fileMode (contentOf p)).run t =
          (.error fault, t') := h
      rcases FileAct.run_writePlain_error_or t path fileMode fileMode (contentOf p) with
        ⟨_, herror⟩ | ⟨hcheck, place, hopens⟩
      · obtain ⟨-, rfl⟩ := Prod.mk.inj (hrun.symm.trans herror)
        exact t'.unchanged_refl
      · obtain ⟨_, _, hok, -⟩ :=
          FileAct.run_writePlain hwf hcheck hopens fileMode fileMode (contentOf p)
        cases hrun.symm.trans hok
  | true =>
      have hrun : (FileAct.writeAtomic path (contentOf p)).run t = (.error fault, t') := h
      rcases FileAct.run_writeAtomic_error_or hwf path (contentOf p) with
        ⟨_, _, herror, hunchanged⟩ | ⟨hcheck, ⟨directory, name, hadmits⟩, s, t₁, hmake⟩
      · obtain ⟨-, rfl⟩ := Prod.mk.inj (hrun.symm.trans herror)
        exact hunchanged
      · obtain ⟨_, hok, -⟩ := FileAct.run_writeAtomic hwf hcheck hadmits hmake (contentOf p)
        cases hrun.symm.trans hok

theorem unchanged_of_writePair_error
    (hwf : w.tree.WellFormed)
    {p : KeyPair}
    {path : Text}
    {atomic : Bool}
    {f : Failure}
    (h : (writePair p path atomic).run w = (.error f, w')) :
    w' = { w with tree := w'.tree } ∧ w.tree.Unchanged w'.tree := by
  rcases hfile : (writeFile path atomic p).run w.tree with ⟨r, t⟩
  cases r with
  | ok =>
      rw [writePair_of_ok hfile] at h
      cases h
  | error fault =>
      rw [writePair, run_bind_of_error (Act.run_files_of_error hfile)] at h
      obtain ⟨-, rfl⟩ := Prod.mk.inj h
      exact ⟨rfl, unchanged_of_writeFile_error hwf hfile⟩

/-- Finding the path of an account's file changes nothing. -/
theorem run_pathFor
    (s : Store)
    (network account : Text)
    (w : World) :
    ((s.pathFor network account).run w).2 = w := by
  have hbase : (s.base.run w).2 = w := by
    rw [base]
    split
    · rfl
    · rw [homeDir, run_bind_of_ok (run_get w)]
      split <;> rfl
  rw [pathFor, run_bind]
  rcases hrun : s.base.run w with ⟨r, w₁⟩
  rw [hrun] at hbase
  cases r with
  | ok dir =>
      exact hbase
  | error f =>
      exact hbase

section ReadyTree

variable
  {s : Store}
  {p : KeyPair}
  {path network : Text}

/-- The tree in which a store writes the file of a path: with the directories above it, if the store
makes them. -/
def readyTree
    (s : Store)
    (path : Text)
    (t : FileTree) : FileTree :=
  if s.createDirs then ((FileAct.ensureDirectories (Path.dirName path) dirMode).run t).2 else t

/-- A write into a store has no path to write to, cannot make the directories above it, or is the
writing of a pair in the tree that was made ready for it. -/
theorem write_cases
    (s : Store)
    (p : KeyPair)
    (network : Text)
    (w : World) :
    (∃ failure, (s.pathFor network p.account).run w = (.error failure, w) ∧
        (s.write p network).run w = (.error failure, w)) ∨
      ∃ path, (s.pathFor network p.account).run w = (.ok path, w) ∧
        ((∃ fault, ((FileAct.ensureDirectories (Path.dirName path) dirMode).run w.tree).1 =
              .error fault ∧
            (s.write p network).run w =
              (.error (.file fault), { w with tree := s.readyTree path w.tree })) ∨
          (s.write p network).run w =
            (writePair p path s.atomicWrite).run { w with tree := s.readyTree path w.tree }) := by
  have hsame := s.run_pathFor network p.account w
  rcases hpath : (s.pathFor network p.account).run w with ⟨r, w₁⟩
  rw [hpath] at hsame
  obtain rfl : w₁ = w := hsame
  cases r with
  | error failure =>
      exact Or.inl ⟨failure, rfl, run_bind_of_error hpath _⟩
  | ok path =>
      refine Or.inr ⟨path, rfl, ?_⟩
      rw [write, run_bind_of_ok hpath, readyTree]
      split
      · rcases hdirs : (FileAct.ensureDirectories (Path.dirName path) dirMode).run w₁.tree with
          ⟨r, t⟩
        cases r with
        | error fault =>
            exact Or.inl ⟨fault, rfl, run_bind_of_error (Act.run_files_of_error hdirs) _⟩
        | ok =>
            exact Or.inr (run_bind_of_ok (Act.run_files_of_ok hdirs) _)
      · exact Or.inr rfl

/-- A write that is done is the writing of a pair in the tree that was made ready for it. -/
theorem writePair_of_write
    (h : (s.write p network).run w = (.ok path, w')) :
    ∃ path', (s.pathFor network p.account).run w = (.ok path', w) ∧
      (writePair p path' s.atomicWrite).run { w with tree := s.readyTree path' w.tree } =
        (.ok path, w') := by
  rcases s.write_cases p network w with
    ⟨_, -, herror⟩ | ⟨path', hpath, ⟨_, -, herror⟩ | hpair⟩
  · cases h.symm.trans herror
  · cases h.symm.trans herror
  · exact ⟨path', hpath, hpair.symm.trans h⟩

/-- The path that a write gives is the one that the store finds. -/
theorem pathFor_of_write
    (h : (s.write p network).run w = (.ok path, w')) :
    (s.pathFor network p.account).run w = (.ok path, w) := by
  obtain ⟨path', hpath, hpair⟩ := writePair_of_write h
  obtain ⟨_, _, -, hlog⟩ := run_bind_eq_ok_iff.mp hpair
  obtain ⟨hresult, -⟩ := Prod.mk.inj hlog
  exact Except.ok.inj hresult ▸ hpath

theorem wellFormed_readyTree
    (hwf : w.tree.WellFormed)
    (s : Store)
    (path : Text) :
    (s.readyTree path w.tree).WellFormed := by
  rw [readyTree]
  split
  · exact (FileAct.growsOn_ensureDirectories (Path.dirName path) dirMode w.tree hwf).2
  · exact hwf

end ReadyTree

/-- A tree has its entries after a failed write, or has grown on the way to the pair's file. -/
def KeptOrGrown
    (s : Store)
    (p : KeyPair)
    (network : Text)
    (w w' : World) : Prop :=
  w.tree.Unchanged w'.tree ∨
    s.createDirs = true ∧ ∃ path, (s.pathFor network p.account).run w = (.ok path, w) ∧
      w.tree.Grows (Path.dirName path) w'.tree

/-- What has the entries of the tree that was made ready for the pair's file is kept or grown. -/
theorem keptOrGrown_of_unchanged
    (hwf : w.tree.WellFormed)
    {s : Store}
    {p : KeyPair}
    {network path : Text}
    (hpath : (s.pathFor network p.account).run w = (.ok path, w))
    (h : (s.readyTree path w.tree).Unchanged w'.tree) :
    KeptOrGrown s p network w w' := by
  rw [readyTree] at h
  by_cases hcreate : s.createDirs = true
  · rw [if_pos hcreate] at h
    obtain ⟨hgrows, -⟩ :=
      FileAct.growsOn_ensureDirectories (Path.dirName path) dirMode w.tree hwf
    exact Or.inr ⟨hcreate, path, hpath, hgrows.trans (h.grows _)⟩
  · rw [if_neg hcreate] at h
    exact Or.inl h

theorem keptOrGrown_of_write_error
    (hwf : w.tree.WellFormed)
    {s : Store}
    {p : KeyPair}
    {network : Text}
    {f : Failure}
    (h : (s.write p network).run w = (.error f, w')) :
    w' = { w with tree := w'.tree } ∧ KeptOrGrown s p network w w' := by
  rcases s.write_cases p network w with
    ⟨_, -, herror⟩ | ⟨path, hpath, ⟨_, -, herror⟩ | hpair⟩
  · obtain ⟨-, rfl⟩ := Prod.mk.inj (h.symm.trans herror)
    exact ⟨rfl, Or.inl (FileTree.unchanged_refl _)⟩
  · obtain ⟨-, rfl⟩ := Prod.mk.inj (h.symm.trans herror)
    exact ⟨rfl, keptOrGrown_of_unchanged hwf hpath (FileTree.unchanged_refl _)⟩
  · obtain ⟨hw', hunchanged⟩ :=
      unchanged_of_writePair_error (wellFormed_readyTree hwf s path) (hpair.symm.trans h)
    exact ⟨hw', keptOrGrown_of_unchanged hwf hpath hunchanged⟩

/-- **A failed write destroys nothing.** When a pair cannot be written to a file, every entry is as
it was, and there is no new one. When it cannot be written into a store, that holds as well, or the
store makes missing directories: then every entry is as it was, and new ones are only directories
that beginnings of the path of the file's directory lead to, so no file is new. Nothing but the
files is touched. -/
theorem failed_write_destroys_nothing
    (hwf : w.tree.WellFormed) :
    (∀ (p : KeyPair) (path : Text) (atomic : Bool) (f : Failure) (w' : World),
      (writePair p path atomic).run w = (.error f, w') →
        w' = { w with tree := w'.tree } ∧ w.tree.Unchanged w'.tree) ∧
    ∀ (s : Store) (p : KeyPair) (network : Text) (f : Failure) (w' : World),
      (s.write p network).run w = (.error f, w') →
        w' = { w with tree := w'.tree } ∧
          (∀ place serial mode content,
            w'.tree.get? place = some (.file serial mode content) →
              w.tree.get? place = some (.file serial mode content)) ∧
          KeptOrGrown s p network w w' := by
  refine ⟨fun p path atomic f w' h => unchanged_of_writePair_error hwf h, ?_⟩
  intro s p network f w' h
  obtain ⟨hw', hkept⟩ := keptOrGrown_of_write_error hwf h
  refine ⟨hw', ?_, hkept⟩
  intro place serial mode content hfile
  rcases hkept with hunchanged | ⟨-, path, -, hgrows⟩
  · rwa [hunchanged.get] at hfile
  · exact hgrows.get?_file hfile

/-- A pair of an account that no file can be named after. -/
def nullPair : KeyPair :=
  ⟨[0], [], [], [], [], []⟩

/-- The write fails when the directories are there already, and leaves nothing but these. -/
theorem failed_write_of_nullPair :
    ∃ w', ((Store.mk (some (lit "a")) true true).write nullPair (lit "main")).run emptyWorld =
        (.error (.file .nullInPath), w') ∧
      w'.tree.get? [lit "a", lit ".near-credentials", lit "main"] = some (.dir dirMode) ∧
        emptyWorld.tree.Grows (lit "a/.near-credentials/main") w'.tree := by
  have hfails : (((Store.mk (some (lit "a")) true true).write nullPair (lit "main")).run
      emptyWorld).1 = .error (.file .nullInPath) := by
    with_unfolding_all rfl
  refine ⟨_, Prod.ext hfails rfl, by with_unfolding_all rfl, ?_⟩
  obtain ⟨-, -, hunchanged | ⟨-, path, hpath, hgrows⟩⟩ :=
    (failed_write_destroys_nothing site_emptyWorld.wellFormed).2 _ nullPair (lit "main") _ _
      (Prod.ext hfails rfl)
  · exact hunchanged.grows _
  · have hway : Path.dirName (pathIn (lit "a") (lit "main") nullPair.account) =
        lit "a/.near-credentials/main" := by
      decide
    obtain rfl : pathIn (lit "a") (lit "main") nullPair.account = path :=
      Except.ok.inj (congrArg Prod.fst hpath)
    rwa [hway] at hgrows

end Store

end Keybox

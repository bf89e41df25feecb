import Keybox.FileTree.Walk
import Keybox.Proofs.FileTree.Table
import Keybox.Proofs.Path
import Keybox.Proofs.Text.FileName

/-!
# Well-formed trees

The trees that operations start from and lead to: every entry is in a directory, open files are told
apart by their serial numbers, and the working directory is a directory whose names can be written
in a path. A change at one place keeps a tree well-formed if it takes no directory away and gives no
serial number out twice.
-/

namespace Keybox

/-! ## Names -/

namespace FileName

/-- A name that a path can give to an entry and that comes back as it is. -/
structure IsName
    (c : Name) : Prop where
  component : Path.IsComponent c
  settled : settled c = c
  fileName : FileFault.checkPath c = .ok ()
  notHere : c ≠ Path.here
  notUp : c ≠ Path.up
  fits : length c ≤ nameLimit

/-- A text without surrogates, slashes and nulls, short enough and none of the two special ones, is
a name. -/
theorem isName_of_scalar
    {c : Text}
    (hne : c ≠ [])
    (hscalar : ∀ d ∈ c, d.isSurrogate = false)
    (hslash : Path.slash ∉ c)
    (hnull : 0 ∉ c)
    (hhere : c ≠ Path.here)
    (hup : c ≠ Path.up)
    (hfits : length c ≤ nameLimit) :
    IsName c := by
  refine ⟨⟨hne, hslash⟩, settled_of_scalar hscalar, ?_, hhere, hup, hfits⟩
  rw [FileFault.checkPath_eq_ok_iff]
  refine ⟨?_, hnull⟩
  intro d hd hsurrogate
  rw [hscalar d hd] at hsurrogate
  cases hsurrogate

theorem settled_eq_here_iff
    (c : Text) :
    FileName.settled c = Path.here ↔ c = Path.here :=
  settled_eq_iff fun d hd => by
    rw [List.mem_singleton.mp hd]
    decide

theorem settled_eq_up_iff
    (c : Text) :
    FileName.settled c = Path.up ↔ c = Path.up :=
  settled_eq_iff fun d hd => by
    rcases List.mem_cons.mp hd with rfl | hd
    · decide
    · rw [List.mem_singleton.mp hd]
      decide

end FileName

namespace FileTree

/-- A place with a directory. -/
def IsDir
    (t : FileTree)
    (place : Place) : Prop :=
  ∃ mode, t.get? place = some (.dir mode)

theorem isDir_root
    (t : FileTree) :
    t.IsDir [] :=
  ⟨plainDirMode, t.get?_root⟩

theorem not_isDir_of_none
    {t : FileTree}
    {place : Place}
    (h : t.get? place = none) :
    ¬ t.IsDir place := by
  rintro ⟨mode, hmode⟩
  rw [h] at hmode
  cases hmode

theorem not_isDir_of_file
    {t : FileTree}
    {place : Place}
    {serial mode : Nat}
    {content : Bytes}
    (h : t.get? place = some (.file serial mode content)) :
    ¬ t.IsDir place := by
  rintro ⟨mode', hmode⟩
  rw [h] at hmode
  cases hmode

/-- What operations may rely on. -/
structure WellFormed
    (t : FileTree) : Prop where
  parent : ∀ place name entry, t.get? (place ++ [name]) = some entry → t.IsDir place
  fresh : ∀ place serial mode content,
    t.get? place = some (.file serial mode content) → serial < t.nextSerial
  unique : ∀ place other serial mode content mode' content',
    t.get? place = some (.file serial mode content) →
      t.get? other = some (.file serial mode' content') → other = place
  workingDir : t.IsDir t.workingDir
  workingNames : ∀ name ∈ t.workingDir, FileName.IsName name

theorem WellFormed.dropLast
    {t : FileTree}
    (h : t.WellFormed)
    {place : Place}
    (hplace : t.IsDir place) :
    t.IsDir place.dropLast := by
  obtain ⟨mode, hmode⟩ := hplace
  rcases List.eq_nil_or_concat place with rfl | ⟨before, name, rfl⟩
  · exact t.isDir_root
  · rw [List.concat_eq_append] at hmode ⊢
    rw [List.dropLast_concat]
    exact h.parent before name _ hmode

/-- The beginnings of a directory's place are directories. -/
theorem WellFormed.isDir_of_append
    {t : FileTree}
    (h : t.WellFormed)
    {place : Place}
    (rest : List Name)
    (hplace : t.IsDir (place ++ rest)) :
    t.IsDir place := by
  induction rest generalizing place with
  | nil =>
      rwa [List.append_nil] at hplace
  | cons name rest ih =>
      have hsplit : place ++ name :: rest = (place ++ [name]) ++ rest := by simp
      rw [hsplit] at hplace
      obtain ⟨mode, hmode⟩ := ih hplace
      exact h.parent place name _ hmode

/-- A tree that is another one but for an entry at one place. -/
structure Becomes
    (t : FileTree)
    (place : Place)
    (entry : Entry)
    (t' : FileTree) : Prop where
  get : ∀ other, t'.get? other = if other = place then some entry else t.get? other
  workingDir : t'.workingDir = t.workingDir
  nextSerial : t.nextSerial ≤ t'.nextSerial

namespace Becomes

variable
  {t t' : FileTree}
  {place : Place}
  {entry : Entry}

theorem get_self
    (h : t.Becomes place entry t') :
    t'.get? place = some entry := by
  rw [h.get, if_pos rfl]

theorem get_of_ne
    (h : t.Becomes place entry t')
    {other : Place}
    (hother : other ≠ place) :
    t'.get? other = t.get? other := by
  rw [h.get, if_neg hother]

/-- Directories stay if none is replaced by something else. -/
theorem isDir
    (h : t.Becomes place entry t')
    (hkeeps : t.IsDir place → ∃ mode, entry = .dir mode)
    {other : Place}
    (hother : t.IsDir other) :
    t'.IsDir other := by
  by_cases heq : other = place
  · subst heq
    obtain ⟨mode, rfl⟩ := hkeeps hother
    exact ⟨mode, h.get_self⟩
  · obtain ⟨mode, hmode⟩ := hother
    exact ⟨mode, by rw [h.get_of_ne heq, hmode]⟩

end Becomes

/-- A change at a place in a directory keeps a tree well-formed. -/
theorem WellFormed.becomes
    {t t' : FileTree}
    (h : t.WellFormed)
    {directory : Place}
    {name : Name}
    {entry : Entry}
    (hb : t.Becomes (directory ++ [name]) entry t')
    (hdirectory : t.IsDir directory)
    (hkeeps : t.IsDir (directory ++ [name]) → ∃ mode, entry = .dir mode)
    (hserial : ∀ serial mode content, entry = .file serial mode content →
      serial < t'.nextSerial ∧
        ∀ other mode' content', t.get? other = some (.file serial mode' content') →
          other = directory ++ [name]) :
    t'.WellFormed where
  parent := by
    intro place child e hget
    rw [hb.get] at hget
    split at hget
    · next heq =>
      obtain ⟨rfl, -⟩ := List.append_inj' heq rfl
      exact hb.isDir hkeeps hdirectory
    · exact hb.isDir hkeeps (h.parent place child e hget)
  fresh := by
    intro place serial mode content hget
    rw [hb.get] at hget
    split at hget
    · exact (hserial serial mode content (Option.some.inj hget)).1
    · exact Nat.lt_of_lt_of_le (h.fresh place serial mode content hget) hb.nextSerial
  unique := by
    intro place other serial mode content mode' content' hplace hother
    rw [hb.get] at hplace hother
    split at hplace
    · next heq =>
      split at hother
      · next heq' =>
        rw [heq, heq']
      · rw [heq]
        exact (hserial serial mode content (Option.some.inj hplace)).2 other mode' content' hother
    · split at hother
      · next heq' =>
        rw [heq']
        exact ((hserial serial mode' content' (Option.some.inj hother)).2 place mode content
          hplace).symm
      · exact h.unique place other serial mode content mode' content' hplace hother
  workingDir := by
    rw [hb.workingDir]
    exact hb.isDir hkeeps h.workingDir
  workingNames := by
    rw [hb.workingDir]
    exact h.workingNames

/-! ## The first tree -/

theorem get?_fresh
    (workingDir place : Place) :
    (fresh workingDir).get? place =
      if place <+: workingDir then some (.dir plainDirMode) else none := by
  by_cases hplace : place = []
  · subst hplace
    rw [get?_root, if_pos (List.nil_prefix)]
  · have hentries : (fresh workingDir).entries =
        ((List.range workingDir.length).map fun n => workingDir.take (n + 1)).map
          fun p => (p, .dir plainDirMode) := by
      rw [fresh, List.map_map]
      rfl
    have hmem : place ∈ ((List.range workingDir.length).map fun n => workingDir.take (n + 1)) ↔
        place <+: workingDir := by
      rw [List.mem_map]
      constructor
      · rintro ⟨n, -, rfl⟩
        exact List.take_prefix _ _
      · intro hprefix
        have hpos : 0 < place.length := List.length_pos_iff.mpr hplace
        have hle := hprefix.length_le
        refine ⟨place.length - 1, List.mem_range.mpr (by omega), ?_⟩
        rw [Nat.sub_add_cancel hpos]
        exact (List.prefix_iff_eq_take.mp hprefix).symm
    rw [get?_of_ne_nil _ hplace, hentries, lookup_map_const]
    simp only [List.contains_iff_mem, hmem]

/-- The tree that a working directory starts with is well-formed. -/
theorem wellFormed_fresh
    {workingDir : Place}
    (h : ∀ name ∈ workingDir, FileName.IsName name) :
    (fresh workingDir).WellFormed where
  parent := by
    intro place name entry hget
    rw [get?_fresh] at hget
    split at hget
    · next hprefix =>
      have hparent : place <+: workingDir := (List.prefix_append place [name]).trans hprefix
      exact ⟨plainDirMode, by rw [get?_fresh, if_pos hparent]⟩
    · cases hget
  fresh := by
    intro place serial mode content hget
    rw [get?_fresh] at hget
    split at hget <;> cases hget
  unique := by
    intro place other serial mode content mode' content' hget
    rw [get?_fresh] at hget
    split at hget <;> cases hget
  workingDir := ⟨plainDirMode, by rw [get?_fresh, fresh, if_pos (List.prefix_rfl)]⟩
  workingNames := h

end FileTree

end Keybox

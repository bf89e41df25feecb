import Keybox.FileTree

/-!
# Looking up entries

What is at a place after each change of a tree. A change at one place leaves all others as they are;
a change of an open file is seen wherever its serial number is.
-/

namespace Keybox

namespace FileTree

theorem lookup_store
    (place other : Place)
    (entry : Entry)
    (entries : List (Place × Entry)) :
    lookup other (store place entry entries) =
      if other = place then some entry else lookup other entries := by
  induction entries with
  | nil =>
      by_cases h : other = place
      · simp [store, lookup, h]
      · simp [store, lookup, h, Ne.symm h]
  | cons e rest ih =>
      rcases e with ⟨p, old⟩
      rw [store]
      by_cases hp : p = place
      · subst hp
        by_cases h : other = p
        · simp [lookup, h]
        · simp [lookup, h, Ne.symm h]
      · rw [if_neg hp, lookup, lookup, ih]
        by_cases h : other = place
        · subst h
          rw [if_neg hp, if_pos rfl, if_pos rfl]
        · rw [if_neg h, if_neg h]

theorem lookup_map
    (f : Entry → Entry)
    (place : Place)
    (entries : List (Place × Entry)) :
    lookup place (entries.map fun e => (e.1, f e.2)) = (lookup place entries).map f := by
  induction entries with
  | nil =>
      rfl
  | cons e rest ih =>
      rw [List.map_cons, lookup, lookup, ih]
      split <;> rfl

theorem lookup_map_const
    (place : Place)
    (entry : Entry)
    (places : List Place) :
    lookup place (places.map fun p => (p, entry)) =
      if places.contains place then some entry else none := by
  induction places with
  | nil =>
      rfl
  | cons p rest ih =>
      rw [List.map_cons, lookup, ih, List.contains_cons]
      by_cases h : p = place
      · simp [h]
      · simp [h, Ne.symm h]

theorem lookup_erase
    (place other : Place)
    (entries : List (Place × Entry)) :
    lookup other (entries.filter fun e => e.1 != place) =
      if other = place then none else lookup other entries := by
  induction entries with
  | nil =>
      simp [lookup]
  | cons e rest ih =>
      rcases e with ⟨p, old⟩
      by_cases hp : p = place
      · subst hp
        rw [List.filter_cons_of_neg (by simp), ih, lookup]
        by_cases h : other = p
        · simp [h]
        · simp [h, Ne.symm h]
      · rw [List.filter_cons_of_pos (by simpa using hp), lookup, lookup, ih]
        by_cases h : other = place
        · subst h
          rw [if_neg hp, if_pos rfl, if_pos rfl]
        · rw [if_neg h, if_neg h]

@[simp] theorem get?_root
    (t : FileTree) :
    t.get? [] = some (.dir plainDirMode) :=
  if_pos rfl

theorem get?_of_ne_nil
    (t : FileTree)
    {place : Place}
    (hplace : place ≠ []) :
    t.get? place = lookup place t.entries :=
  if_neg hplace

theorem get?_set
    (t : FileTree)
    {place : Place}
    (hplace : place ≠ [])
    (entry : Entry)
    (other : Place) :
    (t.set place entry).get? other = if other = place then some entry else t.get? other := by
  by_cases hother : other = []
  · subst hother
    rw [get?_root, get?_root, if_neg (Ne.symm hplace)]
  · rw [get?_of_ne_nil _ hother, get?_of_ne_nil _ hother, set, lookup_store]

theorem get?_erase
    (t : FileTree)
    {place : Place}
    (hplace : place ≠ [])
    (other : Place) :
    (t.erase place).get? other = if other = place then none else t.get? other := by
  by_cases hother : other = []
  · subst hother
    rw [get?_root, get?_root, if_neg (Ne.symm hplace)]
  · rw [get?_of_ne_nil _ hother, get?_of_ne_nil _ hother, erase, lookup_erase]

theorem get?_addFile
    (t : FileTree)
    {place : Place}
    (hplace : place ≠ [])
    (mode : Nat)
    (other : Place) :
    (t.addFile place mode).get? other =
      if other = place then some (.file t.nextSerial mode []) else t.get? other :=
  get?_set t hplace (.file t.nextSerial mode []) other

theorem get?_map
    (t : FileTree)
    (serial : Nat)
    (f : Nat → Bytes → Entry)
    (other : Place) :
    FileTree.get? { t with entries := t.entries.map fun e => (e.1, Entry.onSerial serial f e.2) }
        other =
      (t.get? other).map (Entry.onSerial serial f) := by
  by_cases hother : other = []
  · subst hother
    rfl
  · rw [get?_of_ne_nil _ hother, get?_of_ne_nil _ hother, lookup_map]

theorem get?_append
    (t : FileTree)
    (serial : Nat)
    (content : Bytes)
    (other : Place) :
    (t.append serial content).get? other =
      (t.get? other).map
        (Entry.onSerial serial fun mode old => .file serial mode (old ++ content)) :=
  get?_map t serial _ other

theorem get?_changeMode
    (t : FileTree)
    (serial mode : Nat)
    (other : Place) :
    (t.changeMode serial mode).get? other =
      (t.get? other).map
        (Entry.onSerial serial fun _ content => .file serial mode content) :=
  get?_map t serial _ other

end FileTree

end Keybox

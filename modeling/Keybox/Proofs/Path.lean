import Keybox.Path
import Keybox.Proofs.Text.Pieces

/-!
# Paths and their components

How the components of a path come from those of its parts: joining appends them, the part before the
last slash lacks the last of them, and a normal form has those that are left when parents are
cancelled. Repeated slashes make no difference to any of it.
-/

namespace Keybox

namespace Text

/-- A text is what is left of it followed by what was dropped. -/
theorem exists_dropEndWhile_append
    (p : CodePoint → Bool)
    (t : Text) :
    ∃ u, t = dropEndWhile p t ++ u ∧ ∀ c ∈ u, p c = true := by
  refine ⟨(t.reverse.takeWhile p).reverse, ?_, ?_⟩
  · rw [dropEndWhile, ← List.reverse_append, List.takeWhile_append_dropWhile, List.reverse_reverse]
  · intro c hc
    exact List.all_eq_true.mp List.all_takeWhile c (List.mem_reverse.mp hc)

theorem dropEndWhile_concat_of_pos
    {p : CodePoint → Bool}
    {c : CodePoint}
    (hc : p c = true)
    (t : Text) :
    dropEndWhile p (t ++ [c]) = dropEndWhile p t := by
  rw [dropEndWhile, List.reverse_append, List.reverse_singleton, List.singleton_append,
    List.dropWhile_cons_of_pos hc, dropEndWhile]

theorem dropEndWhile_concat_of_neg
    {p : CodePoint → Bool}
    {c : CodePoint}
    (hc : ¬ p c = true)
    (t : Text) :
    dropEndWhile p (t ++ [c]) = t ++ [c] := by
  rw [dropEndWhile, List.reverse_append, List.reverse_singleton, List.singleton_append,
    List.dropWhile_cons_of_neg hc, List.reverse_cons, List.reverse_reverse]

end Text

namespace Path

/-! ## Components -/

/-- A text that is one component of a path. -/
structure IsComponent
    (c : Text) : Prop where
  ne_nil : c ≠ []
  noSlash : slash ∉ c

theorem isComponent_of_mem
    {p c : Text}
    (hc : c ∈ components p) :
    IsComponent c := by
  obtain ⟨hmem, hne⟩ := List.mem_filter.mp hc
  exact ⟨by simpa using hne, Text.notMem_of_mem_split hmem⟩

theorem mem_of_mem_components
    {p c : Text}
    {d : CodePoint}
    (hc : c ∈ components p)
    (hd : d ∈ c) :
    d ∈ p :=
  Text.mem_of_mem_split (List.mem_filter.mp hc).1 hd

@[simp] theorem components_nil :
    components [] = [] :=
  rfl

theorem components_append_slash
    (s t : Text) :
    components (s ++ slash :: t) = components s ++ components t := by
  rw [components, Text.split_append_cons, List.filter_append, components, components]

theorem components_slash
    (t : Text) :
    components (slash :: t) = components t :=
  components_append_slash [] t

theorem components_concat_slash
    (s : Text) :
    components (s ++ [slash]) = components s := by
  rw [components_append_slash, components_nil, List.append_nil]

theorem IsComponent.components_eq
    {c : Text}
    (hc : IsComponent c) :
    components c = [c] := by
  rw [components, Text.split_of_notMem hc.noSlash]
  simp [hc.ne_nil]

theorem components_slashes
    {u : Text}
    (hu : ∀ c ∈ u, c = slash) :
    components u = [] := by
  induction u with
  | nil =>
      rfl
  | cons c rest ih =>
      rw [hu c (by simp), components_slash]
      exact ih fun d hd => hu d (List.mem_cons_of_mem c hd)

theorem components_append_slashes
    (s : Text)
    {u : Text}
    (hu : ∀ c ∈ u, c = slash) :
    components (s ++ u) = components s := by
  cases u with
  | nil =>
      rw [List.append_nil]
  | cons c rest =>
      have hrest : ∀ d ∈ rest, d = slash := fun d hd => hu d (List.mem_cons_of_mem c hd)
      rw [hu c (by simp), components_append_slash, components_slashes hrest, List.append_nil]

theorem components_dropEndWhile
    (s : Text) :
    components (Text.dropEndWhile (· = slash) s) = components s := by
  obtain ⟨u, hsplit, hu⟩ := Text.exists_dropEndWhile_append (· = slash) s
  have hslashes : ∀ c ∈ u, c = slash := fun c hc => of_decide_eq_true (hu c hc)
  conv => rhs; rw [hsplit, components_append_slashes _ hslashes]

/-- Components put together with slashes are read back. -/
theorem components_join_slash
    {names : List Text}
    (h : ∀ c ∈ names, IsComponent c) :
    components (Text.join [slash] names) = names := by
  induction names with
  | nil =>
      rfl
  | cons c rest ih =>
      have hc := (h c (by simp)).components_eq
      cases rest with
      | nil =>
          exact hc
      | cons d rest =>
          rw [Text.join_cons_cons, List.append_assoc, List.singleton_append,
            components_append_slash, hc, ih fun e he => h e (List.mem_cons_of_mem c he)]
          rfl

/-! ## Joining -/

/-- Joining a relative path puts one slash before it, the one that is there already or a new one. -/
theorem exists_join_eq
    {base p : Text}
    (hbase : base ≠ [])
    (hp : isAbsolute p = false) :
    ∃ s, join base p = s ++ slash :: p ∧ (base = s ∨ base = s ++ [slash]) := by
  rw [join, if_neg (by simp [hp])]
  by_cases hlast : base.getLast? = some slash
  · obtain ⟨s, rfl⟩ := List.getLast?_eq_some_iff.mp hlast
    exact ⟨s, by simp, Or.inr rfl⟩
  · rw [if_neg (by simp [hbase, hlast])]
    exact ⟨base, rfl, Or.inl rfl⟩

theorem join_of_getLast
    {base p : Text}
    (hbase : base ≠ [])
    (hlast : base.getLast? ≠ some slash)
    (hp : isAbsolute p = false) :
    join base p = base ++ slash :: p := by
  rw [join, if_neg (by simp [hp]), if_neg (by simp [hbase, hlast])]

theorem components_join
    {base p : Text}
    (hp : isAbsolute p = false) :
    components (join base p) = components base ++ components p := by
  by_cases hbase : base = []
  · rw [hbase, join, if_neg (by simp [hp])]
    simp
  · obtain ⟨s, hjoin, rfl | rfl⟩ := exists_join_eq hbase hp
    · rw [hjoin, components_append_slash]
    · rw [hjoin, components_append_slash, components_concat_slash]

theorem isAbsolute_append
    {s : Text}
    (hs : s ≠ [])
    (t : Text) :
    isAbsolute (s ++ t) = isAbsolute s := by
  obtain ⟨c, rest, rfl⟩ := List.exists_cons_of_ne_nil hs
  rfl

theorem join_ne_nil
    {base : Text}
    (hbase : base ≠ [])
    (p : Text) :
    join base p ≠ [] := by
  rw [join]
  split
  · next hp =>
    rintro rfl
    cases hp
  · split <;> simp [hbase]

theorem isAbsolute_join
    {base p : Text}
    (hbase : base ≠ [])
    (hp : isAbsolute p = false) :
    isAbsolute (join base p) = isAbsolute base := by
  rw [join, if_neg (by simp [hp])]
  split <;> exact isAbsolute_append hbase _

theorem IsComponent.isAbsolute_eq
    {c : Text}
    (hc : IsComponent c) :
    isAbsolute c = false := by
  cases c with
  | nil =>
      rfl
  | cons d rest =>
      have hd : d ≠ slash := by
        rintro rfl
        exact hc.noSlash (by simp)
      simpa [isAbsolute] using hd

theorem IsComponent.getLast?_ne
    {c : Text}
    (hc : IsComponent c) :
    c.getLast? ≠ some slash := by
  intro h
  exact hc.noSlash (List.mem_of_getLast? h)

theorem IsComponent.getLast?_join
    {c : Text}
    (hc : IsComponent c)
    {base : Text}
    (hbase : base ≠ []) :
    (join base c).getLast? = c.getLast? := by
  obtain ⟨d, rest, rfl⟩ := List.exists_cons_of_ne_nil hc.ne_nil
  obtain ⟨s, hjoin, -⟩ := exists_join_eq hbase hc.isAbsolute_eq
  rw [hjoin, List.getLast?_append, List.getLast?_cons_cons]
  cases h : (d :: rest).getLast? with
  | none =>
      simp at h
  | some e =>
      rfl

theorem IsComponent.isPrefix_join
    {c : Text}
    (hc : IsComponent c)
    (base : Text) :
    base <+: join base c := by
  rw [join, if_neg (by simp [hc.isAbsolute_eq])]
  split <;> exact List.prefix_append base _

theorem mem_join
    {base p : Text}
    {c : CodePoint}
    (hc : c ∈ join base p) :
    c ∈ base ∨ c = slash ∨ c ∈ p := by
  rw [join] at hc
  split at hc
  · exact Or.inr (Or.inr hc)
  · split at hc
    · rcases List.mem_append.mp hc with hc | hc
      · exact Or.inl hc
      · exact Or.inr (Or.inr hc)
    · rcases List.mem_append.mp hc with hc | hc
      · exact Or.inl hc
      · exact Or.inr (List.mem_cons.mp hc)

/-! ## The last component -/

theorem IsComponent.takeWhile_reverse_append
    {c : Text}
    (hc : IsComponent c)
    (rest : Text) :
    (c.reverse ++ rest).takeWhile (fun d => d != slash) =
      c.reverse ++ rest.takeWhile fun d => d != slash := by
  apply List.takeWhile_append_of_pos
  intro d hd
  rw [bne_iff_ne]
  rintro rfl
  exact hc.noSlash (List.mem_reverse.mp hd)

theorem IsComponent.baseName_append
    {c : Text}
    (hc : IsComponent c)
    (s : Text) :
    baseName (s ++ slash :: c) = c := by
  rw [baseName, List.reverse_append, List.reverse_cons, List.append_assoc,
    hc.takeWhile_reverse_append]
  simp

theorem IsComponent.dirName_append
    {c : Text}
    (hc : IsComponent c)
    (s : Text) :
    dirName (s ++ slash :: c) =
      if s.all (· = slash) then s ++ [slash] else Text.dropEndWhile (· = slash) s := by
  have hhead : (s ++ slash :: c).take ((s ++ slash :: c).length - c.length) = s ++ [slash] := by
    have hlength : (s ++ slash :: c).length - c.length = (s ++ [slash]).length := by
      simp
      omega
    have hsplit : s ++ slash :: c = (s ++ [slash]) ++ c := by simp
    rw [hlength, hsplit, List.take_left]
  rw [dirName, hc.baseName_append, hhead, Text.dropEndWhile_concat_of_pos (by simp)]
  simp

theorem IsComponent.baseName_join
    {c : Text}
    (hc : IsComponent c)
    {base : Text}
    (hbase : base ≠ []) :
    baseName (join base c) = c := by
  obtain ⟨s, hjoin, -⟩ := exists_join_eq hbase hc.isAbsolute_eq
  rw [hjoin, hc.baseName_append]

/-- What stands before a component is the path it was joined to, if that has no slash at its end. -/
theorem IsComponent.dirName_join
    {c : Text}
    (hc : IsComponent c)
    {base : Text}
    (hbase : base ≠ [])
    (hlast : base.getLast? ≠ some slash) :
    dirName (join base c) = base := by
  obtain ⟨before, d, rfl⟩ : ∃ before d, base = before ++ [d] :=
    ⟨_, _, (List.dropLast_concat_getLast hbase).symm⟩
  have hd : d ≠ slash := by simpa using hlast
  rw [join_of_getLast hbase hlast hc.isAbsolute_eq, hc.dirName_append, if_neg (by simp [hd]),
    Text.dropEndWhile_concat_of_neg (by simp [hd])]

/-- What stands before a component leads where the path leads that it was joined to. -/
theorem IsComponent.dirName_join_similar
    {c : Text}
    (hc : IsComponent c)
    {base : Text}
    (hbase : base ≠ []) :
    dirName (join base c) ≠ [] ∧ isAbsolute (dirName (join base c)) = isAbsolute base ∧
      components (dirName (join base c)) = components base := by
  obtain ⟨s, hjoin, hs⟩ := exists_join_eq hbase hc.isAbsolute_eq
  have hcomponents : components base = components s := by
    rcases hs with rfl | rfl
    · rfl
    · exact components_concat_slash s
  rw [hjoin, hc.dirName_append]
  split
  · next hall =>
    rw [components_concat_slash, hcomponents]
    refine ⟨by simp, ?_, rfl⟩
    cases s with
    | nil =>
        rcases hs with rfl | rfl
        · exact absurd rfl hbase
        · rfl
    | cons d rest =>
        rcases hs with rfl | rfl <;> rfl
  · next hall =>
    obtain ⟨u, hsplit, hu⟩ := Text.exists_dropEndWhile_append (· = slash) s
    have hkept : Text.dropEndWhile (· = slash) s ≠ [] := by
      intro hnil
      rw [hnil, List.nil_append] at hsplit
      rw [← hsplit] at hu
      exact hall (List.all_eq_true.mpr hu)
    have hne : s ≠ [] := by
      rintro rfl
      exact hall rfl
    have habsolute : isAbsolute s = isAbsolute (Text.dropEndWhile (· = slash) s) := by
      conv => lhs; rw [hsplit]
      exact isAbsolute_append hkept u
    refine ⟨hkept, ?_, by rw [components_dropEndWhile, hcomponents]⟩
    rw [← habsolute]
    rcases hs with rfl | rfl
    · rfl
    · exact (isAbsolute_append hne [slash]).symm

theorem IsComponent.dirName_eq_nil
    {c : Text}
    (hc : IsComponent c) :
    dirName c = [] := by
  have hbase : baseName c = c := by
    rw [baseName, ← List.append_nil c.reverse, hc.takeWhile_reverse_append]
    simp
  rw [dirName, hbase, Nat.sub_self, List.take_zero]
  rfl

/-- A path that does not end in a slash is a component, or one joined to another path. -/
theorem isComponent_or_exists_join
    {p : Text}
    (hp : p ≠ [])
    (hlast : p.getLast? ≠ some slash) :
    IsComponent p ∨ ∃ base c, base ≠ [] ∧ IsComponent c ∧ p = join base c := by
  by_cases hslash : slash ∈ p
  · obtain ⟨back, front, hsplit, hback⟩ := List.eq_append_cons_of_mem (List.mem_reverse.mpr hslash)
    have hp : p = front.reverse ++ slash :: back.reverse := by
      rw [← List.reverse_reverse p, hsplit]
      simp
    have hc : IsComponent back.reverse := by
      refine ⟨?_, fun hmem => hback (List.mem_reverse.mp hmem)⟩
      intro hnil
      rw [hp, hnil] at hlast
      simp at hlast
    refine Or.inr ⟨front.reverse ++ [slash], back.reverse, by simp, hc, ?_⟩
    rw [join, if_neg (by simp [hc.isAbsolute_eq]), if_pos (by simp), hp]
    simp
  · exact Or.inl ⟨hp, hslash⟩

theorem dirName_prefix
    (p : Text) :
    dirName p <+: p := by
  have hhead : p.take (p.length - (baseName p).length) <+: p := List.take_prefix _ p
  rw [dirName]
  split
  · exact hhead
  · obtain ⟨u, hsplit, -⟩ := Text.exists_dropEndWhile_append (· = slash)
      (p.take (p.length - (baseName p).length))
    exact List.IsPrefix.trans ⟨u, hsplit.symm⟩ hhead

/-! ## Normal forms -/

theorem cancel_cons
    (rooted : Bool)
    (done rest : List Text)
    (c : Text) :
    cancel rooted done (c :: rest) =
      if c = here then cancel rooted done rest
      else if c = up then
        match done with
        | [] => cancel rooted (if rooted then [] else [up]) rest
        | d :: ds => cancel rooted (if d = up then up :: done else ds) rest
      else cancel rooted (c :: done) rest :=
  cancel.eq_def rooted done (c :: rest)

/-- Cancelling keeps some of the components and makes up none. -/
theorem mem_of_mem_cancel
    {rooted : Bool}
    {done rest : List Text}
    {c : Text}
    (hc : c ∈ cancel rooted done rest) :
    c ∈ done ∨ c ∈ rest := by
  induction rest generalizing done with
  | nil =>
      exact Or.inl hc
  | cons d rest ih =>
      rw [cancel_cons] at hc
      split at hc
      · exact (ih hc).imp_right (List.mem_cons_of_mem d)
      · split at hc
        · next hup =>
          cases done with
          | nil =>
              rcases ih hc with hmem | hmem
              · split at hmem
                · cases hmem
                · rw [List.mem_singleton.mp hmem, ← hup]
                  exact Or.inr List.mem_cons_self
              · exact Or.inr (List.mem_cons_of_mem d hmem)
          | cons e es =>
              rcases ih hc with hmem | hmem
              · split at hmem
                · rcases List.mem_cons.mp hmem with rfl | hmem
                  · exact Or.inr (by rw [hup]; exact List.mem_cons_self)
                  · exact Or.inl hmem
                · exact Or.inl (List.mem_cons_of_mem e hmem)
              · exact Or.inr (List.mem_cons_of_mem d hmem)
        · rcases ih hc with hmem | hmem
          · rcases List.mem_cons.mp hmem with rfl | hmem
            · exact Or.inr List.mem_cons_self
            · exact Or.inl hmem
          · exact Or.inr (List.mem_cons_of_mem d hmem)

/-- A renaming of components that keeps the two special ones apart from all others goes through
cancelling. -/
theorem cancel_map
    {f : Text → Text}
    (hhere : ∀ c, f c = here ↔ c = here)
    (hup : ∀ c, f c = up ↔ c = up)
    (rooted : Bool)
    (done rest : List Text) :
    cancel rooted (done.map f) (rest.map f) = (cancel rooted done rest).map f := by
  have hfup : f up = up := (hup up).mpr rfl
  induction rest generalizing done with
  | nil =>
      rfl
  | cons c rest ih =>
      rw [List.map_cons, cancel_cons, cancel_cons]
      simp only [hhere, hup]
      split
      · exact ih done
      · split
        · cases done with
          | nil =>
              cases rooted with
              | true =>
                  exact ih []
              | false =>
                  have h := ih [up]
                  rwa [List.map_singleton, hfup] at h
          | cons d ds =>
              simp only [List.map_cons, hup]
              split
              · have h := ih (up :: d :: ds)
                rwa [List.map_cons, hfup] at h
              · exact ih ds
        · exact ih (c :: done)

/-- What is left of the components of an absolute path. -/
def kept (p : Text) : List Text :=
  (cancel true [] (components p)).reverse

theorem isComponent_of_mem_kept
    {p c : Text}
    (hc : c ∈ kept p) :
    IsComponent c := by
  rcases mem_of_mem_cancel (List.mem_reverse.mp hc) with h | h
  · cases h
  · exact isComponent_of_mem h

theorem rootSlashes_of_isAbsolute
    {p : Text}
    (hp : isAbsolute p = true) :
    rootSlashes p = [slash] ∨ rootSlashes p = [slash, slash] := by
  cases p with
  | nil =>
      cases hp
  | cons c rest =>
      obtain rfl : c = slash := by simpa [isAbsolute] using hp
      rw [rootSlashes]
      split
      · next h =>
        simp at h
      · exact Or.inr rfl
      · exact Or.inl rfl

/-- The normal form of an absolute path is an absolute path with the components that are left. -/
theorem normalize_of_isAbsolute
    {p : Text}
    (hp : isAbsolute p = true) :
    isAbsolute (normalize p) = true ∧ components (normalize p) = kept p := by
  have hkept : components (Text.join [slash] (kept p)) = kept p :=
    components_join_slash fun c hc => isComponent_of_mem_kept hc
  have hnormal : normalize p = rootSlashes p ++ Text.join [slash] (kept p) := by
    rw [normalize, hp, if_neg]
    · rfl
    · rcases rootSlashes_of_isAbsolute hp with h | h <;> simp [h]
  rw [hnormal]
  rcases rootSlashes_of_isAbsolute hp with h | h
  · rw [h, List.singleton_append, components_slash, hkept]
    exact ⟨rfl, rfl⟩
  · rw [h, List.cons_append, List.singleton_append, components_slash, components_slash, hkept]
    exact ⟨rfl, rfl⟩

theorem mem_normalize
    {p : Text}
    (hp : isAbsolute p = true)
    {c : CodePoint}
    (hc : c ∈ normalize p) :
    c = slash ∨ c ∈ p := by
  have hroot : ∀ d ∈ rootSlashes p, d = slash := by
    rcases rootSlashes_of_isAbsolute hp with h | h <;> simp [h]
  have hbody : ∀ d ∈ Text.join [slash] (kept p), d = slash ∨ d ∈ p := by
    intro d hd
    rcases Text.mem_join hd with hd | ⟨name, hname, hd⟩
    · exact Or.inl (List.mem_singleton.mp hd)
    · rcases mem_of_mem_cancel (List.mem_reverse.mp hname) with h | h
      · cases h
      · exact Or.inr (mem_of_mem_components h hd)
  rw [normalize, hp] at hc
  split at hc
  · next hnil =>
    rcases rootSlashes_of_isAbsolute hp with h | h <;> simp [h] at hnil
  · rcases List.mem_append.mp hc with hc | hc
    · exact Or.inl (hroot c hc)
    · exact hbody c hc

end Path

end Keybox

import Mathlib.Data.List.TakeWhile
import Keybox.Proofs.Path

/-!
# Paths that stay below a directory

A path that goes on from a directory by further components need not lie in it: a parent among them
cancels the component before it, which may be one of the directory's. It does lie in it if the
components, read from the left, never have more parents than names.

**Results.** Components that stay below where they start are cancelled among themselves, so the normal
form of the path is that of the directory followed by ordinary names.
-/

namespace Keybox

namespace Text

theorem join_append
    (between : Text)
    {front back : List Text}
    (hfront : front ≠ [])
    (hback : back ≠ []) :
    join between (front ++ back) = join between front ++ between ++ join between back := by
  induction front with
  | nil =>
      exact absurd rfl hfront
  | cons t rest ih =>
      cases rest with
      | nil =>
          obtain ⟨u, back, rfl⟩ := List.exists_cons_of_ne_nil hback
          exact join_cons_cons between t u back
      | cons u rest =>
          rw [List.cons_append, List.cons_append, join_cons_cons, join_cons_cons,
            ← List.cons_append, ih (List.cons_ne_nil u rest)]
          simp only [List.append_assoc]

end Text

namespace Path

/-- Whether components, taken from so many levels below a directory on, never lead above it. -/
def staysBelow : Nat → List Text → Bool
  | _, [] => true
  | depth, c :: rest =>
    if c = here then staysBelow depth rest
    else if c = up then
      match depth with
      | 0 => false
      | above + 1 => staysBelow above rest
    else staysBelow (depth + 1) rest

/-- A path whose normal form goes on from that of a directory by ordinary names. -/
def LiesIn
    (p dir : Text) : Prop :=
  ∃ names, names ≠ [] ∧ (∀ c ∈ names, IsComponent c ∧ c ≠ here ∧ c ≠ up) ∧
    normalize p = normalize dir ++ slash :: Text.join [slash] names

variable
  {depth : Nat}
  {done front back names : List Text}
  {rooted : Bool}
  {p c : Text}

theorem join_append_slash
    (hp : isAbsolute p = false)
    (s q : Text) :
    join (s ++ slash :: q) p = s ++ slash :: join q p := by
  have hends : (s ++ slash :: q).getLast? = some slash ↔ q = [] ∨ q.getLast? = some slash := by
    cases q with
    | nil =>
        simp
    | cons c q =>
        simp [List.getLast?_append]
  have hrelative : ¬ isAbsolute p = true := by simp [hp]
  rw [join, join, if_neg hrelative, if_neg hrelative]
  by_cases h : q = [] ∨ q.getLast? = some slash
  · rw [if_pos (Or.inr (hends.mpr h)), if_pos h]
    simp
  · rw [if_neg (not_or.mpr ⟨by simp, fun hlast => h (hends.mp hlast)⟩), if_neg h]
    simp

theorem getLast?_join
    (hp : p ≠ [])
    (hrelative : isAbsolute p = false)
    (base : Text) :
    (join base p).getLast? = p.getLast? := by
  have hlast := List.getLast?_eq_some_getLast hp
  rw [join, if_neg (by simp [hrelative])]
  split
  · rw [List.getLast?_append, hlast]
    rfl
  · rw [List.getLast?_append, List.getLast?_cons, hlast]
    rfl

/-! ## Cancelling -/

theorem staysBelow_cons
    (depth : Nat)
    (c : Text)
    (rest : List Text) :
    staysBelow depth (c :: rest) =
      if c = here then staysBelow depth rest
      else if c = up then
        match depth with
        | 0 => false
        | above + 1 => staysBelow above rest
      else staysBelow (depth + 1) rest :=
  staysBelow.eq_def depth (c :: rest)

theorem staysBelow_of_append
    (h : staysBelow depth (front ++ back) = true) :
    staysBelow depth front = true := by
  induction front generalizing depth with
  | nil =>
      rfl
  | cons c rest ih =>
      rw [List.cons_append, staysBelow_cons] at h
      rw [staysBelow_cons]
      split
      · next hhere =>
        rw [if_pos hhere] at h
        exact ih h
      · next hhere =>
        rw [if_neg hhere] at h
        split
        · next hup =>
          rw [if_pos hup] at h
          cases depth with
          | zero =>
              cases h
          | succ above =>
              exact ih h
        · next hup =>
          rw [if_neg hup] at h
          exact ih h

theorem staysBelow_of_notMem
    (h : up ∉ names) :
    staysBelow depth names = true := by
  induction names generalizing depth with
  | nil =>
      rfl
  | cons c rest ih =>
      rw [List.mem_cons, not_or] at h
      rw [staysBelow_cons, if_neg (Ne.symm h.1)]
      split <;> exact ih h.2

theorem cancel_names_append
    (rooted : Bool)
    (done front back : List Text) :
    cancel rooted done (front ++ back) = cancel rooted (cancel rooted done front) back := by
  induction front generalizing done with
  | nil =>
      rfl
  | cons c rest ih =>
      rw [List.cons_append, cancel_cons, cancel_cons]
      split
      · exact ih done
      · split
        · cases done with
          | nil =>
              exact ih _
          | cons d ds =>
              exact ih _
        · exact ih (c :: done)

/-- What is kept of an absolute path are ordinary names. -/
theorem ordinary_of_mem_cancel
    (hdone : ∀ d ∈ done, d ≠ here ∧ d ≠ up)
    (hc : c ∈ cancel true done names) :
    c ≠ here ∧ c ≠ up := by
  induction names generalizing done with
  | nil =>
      exact hdone c hc
  | cons e rest ih =>
      rw [cancel_cons] at hc
      split at hc
      · exact ih hdone hc
      · next hhere =>
        split at hc
        · cases done with
          | nil =>
              exact ih hdone hc
          | cons d ds =>
              dsimp only at hc
              rw [if_neg (hdone d List.mem_cons_self).2] at hc
              exact ih (fun f hf => hdone f (List.mem_cons_of_mem d hf)) hc
        · next hup =>
          refine ih (fun d hd => ?_) hc
          rcases List.mem_cons.mp hd with rfl | hd
          · exact ⟨hhere, hup⟩
          · exact hdone d hd

/-- Components that stay below where they start are cancelled among themselves. -/
theorem cancel_of_staysBelow
    (done : List Text)
    (h : staysBelow done.length names = true)
    (hdone : up ∉ done)
    (rooted : Bool)
    (above : List Text) :
    cancel rooted (done ++ above) names = cancel true done names ++ above := by
  induction names generalizing done with
  | nil =>
      rfl
  | cons c rest ih =>
      rw [staysBelow_cons] at h
      rw [cancel_cons, cancel_cons]
      split
      · next hhere =>
        rw [if_pos hhere] at h
        exact ih done h hdone
      · next hhere =>
        rw [if_neg hhere] at h
        split
        · next hup =>
          rw [if_pos hup] at h
          cases done with
          | nil =>
              cases h
          | cons d ds =>
              rw [List.mem_cons, not_or] at hdone
              have hd : d ≠ up := Ne.symm hdone.1
              rw [List.cons_append]
              dsimp only
              rw [if_neg hd, if_neg hd]
              exact ih ds h hdone.2
        · next hup =>
          rw [if_neg hup] at h
          exact ih (c :: done) h (by simpa [Ne.symm hup] using hdone)

/-! ## The last component -/

/-- A path that does not end in a slash has a last component, with the same end. -/
theorem exists_components_concat
    (hp : p ≠ [])
    (hlast : p.getLast? ≠ some slash) :
    ∃ c, IsComponent c ∧ c.getLast? = p.getLast? ∧
      components p = components (dirName p) ++ [c] := by
  rcases isComponent_or_exists_join hp hlast with hc | ⟨base, c, hbase, hc, rfl⟩
  · exact ⟨p, hc, rfl, by rw [hc.dirName_eq_nil, hc.components_eq, components_nil, List.nil_append]⟩
  · obtain ⟨-, -, hcomponents⟩ := hc.dirName_join_similar hbase
    exact ⟨c, hc, (hc.getLast?_join hbase).symm,
      by rw [hcomponents, components_join hc.isAbsolute_eq, hc.components_eq]⟩

/-- Cancelling keeps a last name. -/
theorem cancel_concat
    (hhere : c ≠ here)
    (hup : c ≠ up)
    (rooted : Bool)
    (done front : List Text) :
    cancel rooted done (front ++ [c]) = c :: cancel rooted done front := by
  rw [cancel_names_append, cancel_cons, if_neg hhere, if_neg hup, cancel]

/-! ## What stands before the last component -/

/-- A path has no slash, or is what stands before its last slash followed by the rest. -/
theorem dirName_cases
    (p : Text) :
    dirName p = [] ∧ slash ∉ p ∨
      dirName p ≠ [] ∧ components p = components (dirName p) ++ components (baseName p) := by
  have hsplit : (p.reverse.dropWhile fun c => c != slash).reverse ++ baseName p = p := by
    rw [baseName, ← List.reverse_append, List.takeWhile_append_dropWhile, List.reverse_reverse]
  have hhead : p.take (p.length - (baseName p).length) =
      (p.reverse.dropWhile fun c => c != slash).reverse := by
    have hlength := congrArg List.length hsplit
    rw [List.length_append] at hlength
    have hfront : ((p.reverse.dropWhile fun c => c != slash).reverse ++ baseName p).take
        (p.length - (baseName p).length) = (p.reverse.dropWhile fun c => c != slash).reverse :=
      List.take_left' (by omega)
    rwa [hsplit] at hfront
  rw [dirName, hhead]
  cases hback : p.reverse.dropWhile fun c => c != slash with
  | nil =>
      refine Or.inl ⟨rfl, fun hmem => ?_⟩
      have hall := List.dropWhile_eq_nil_iff.mp hback slash (List.mem_reverse.mpr hmem)
      simp at hall
  | cons c back =>
      have hc : c = slash := by
        have hstops := List.head?_dropWhile_not (fun c => c != slash) p.reverse
        rw [hback] at hstops
        simpa using hstops
      rw [hback, hc, List.reverse_cons, List.append_assoc, List.singleton_append] at hsplit
      rw [hc, List.reverse_cons]
      have hcomponents : components p =
          components (back.reverse ++ [slash]) ++ components (baseName p) := by
        conv => lhs; rw [← hsplit]
        rw [components_append_slash, components_concat_slash]
      right
      split
      · exact ⟨by simp, hcomponents⟩
      · next hall =>
        refine ⟨?_, by rw [components_dropEndWhile, hcomponents]⟩
        intro hnil
        obtain ⟨u, hu, hslashes⟩ :=
          Text.exists_dropEndWhile_append (· = slash) (back.reverse ++ [slash])
        rw [hnil, List.nil_append] at hu
        exact hall (List.all_eq_true.mpr fun d hd => hslashes d (hu ▸ hd))

theorem isAbsolute_dirName
    (p : Text) :
    isAbsolute (dirName p) = isAbsolute p := by
  rcases dirName_cases p with ⟨hnil, hslash⟩ | ⟨hne, -⟩
  · rw [hnil]
    cases p with
    | nil =>
        rfl
    | cons c rest =>
        rw [List.mem_cons, not_or] at hslash
        simpa [isAbsolute] using Ne.symm hslash.1
  · obtain ⟨u, hu⟩ := dirName_prefix p
    conv => rhs; rw [← hu]
    exact (isAbsolute_append hne u).symm

theorem components_dirName_prefix
    (p : Text) :
    components (dirName p) <+: components p := by
  rcases dirName_cases p with ⟨hnil, -⟩ | ⟨-, hcomponents⟩
  · rw [hnil]
    exact List.nil_prefix
  · exact ⟨_, hcomponents.symm⟩

/-! ## Normal forms -/

theorem rootSlashes_append
    {s : Text}
    (hs : ∃ c ∈ s, c ≠ slash)
    (t : Text) :
    rootSlashes (s ++ t) = rootSlashes s := by
  obtain ⟨c, hc, hslash⟩ := hs
  have hfront : (s ++ t).takeWhile (· = slash) = s.takeWhile (· = slash) := by
    rw [List.takeWhile_append, if_neg]
    intro hlength
    have hall := List.takeWhile_eq_self_iff.mp
      ((List.takeWhile_prefix (· = slash)).eq_of_length hlength)
    exact hslash (of_decide_eq_true (hall c hc))
  rw [rootSlashes, rootSlashes, hfront]

/-- A path that goes on from a directory's by components that stay below it lies in the directory,
where they lead from its root. -/
theorem normalize_append_of_staysBelow
    {dir rest : Text}
    (hdir : ∃ c ∈ dir, c ≠ slash)
    (hkept : cancel (isAbsolute dir) [] (components dir) ≠ [])
    (hbelow : staysBelow 0 (components rest) = true)
    (hrest : cancel true [] (components rest) ≠ []) :
    normalize (dir ++ slash :: rest) =
      normalize dir ++ slash :: Text.join [slash] (cancel true [] (components rest)).reverse := by
  have habsolute : isAbsolute (dir ++ slash :: rest) = isAbsolute dir := by
    obtain ⟨c, hc, -⟩ := hdir
    exact isAbsolute_append (List.ne_nil_of_mem hc) _
  have hcancel : cancel (isAbsolute dir) (cancel (isAbsolute dir) [] (components dir))
        (components rest) =
      cancel true [] (components rest) ++ cancel (isAbsolute dir) [] (components dir) :=
    cancel_of_staysBelow [] hbelow List.not_mem_nil _ _
  have hbody : Text.join [slash] (cancel (isAbsolute dir) [] (components dir)).reverse ≠ [] := by
    intro hnil
    have hnames : ∀ c ∈ (cancel (isAbsolute dir) [] (components dir)).reverse, IsComponent c := by
      intro c hc
      rcases mem_of_mem_cancel (List.mem_reverse.mp hc) with h | h
      · cases h
      · exact isComponent_of_mem h
    have hread := components_join_slash hnames
    rw [hnil] at hread
    exact hkept (List.reverse_eq_nil_iff.mp hread.symm)
  rw [normalize, normalize, habsolute, rootSlashes_append hdir, components_append_slash,
    cancel_names_append, hcancel, List.reverse_append,
    Text.join_append _ (by simpa using hkept) (by simpa using hrest)]
  rw [if_neg (by simp), if_neg (by simp [hbody])]
  simp

/-- A path whose normal form does not begin with that of a directory does not lie in it. -/
theorem not_liesIn_of_not_prefix
    {dir : Text}
    (h : ¬ normalize dir <+: normalize p) :
    ¬ LiesIn p dir := by
  rintro ⟨names, -, -, heq⟩
  exact h ⟨_, heq.symm⟩

end Path

end Keybox

import Keybox.Text

/-!
# Splitting and joining

What the pieces of a text are when the text is put together around separators, and what stands in a
text that is joined from pieces.
-/

namespace Keybox

namespace Text

variable {separator : CodePoint}

theorem split_ne_nil
    (t : Text) :
    split separator t ≠ [] := by
  cases t with
  | nil =>
      simp [split]
  | cons c rest =>
      rw [split]
      split
      · simp
      · split <;> simp

/-- A separator ends one piece and begins another, whatever stands around it. -/
theorem split_append_cons
    (s t : Text) :
    split separator (s ++ separator :: t) = split separator s ++ split separator t := by
  induction s with
  | nil =>
      simp [split]
  | cons c rest ih =>
      rw [List.cons_append, split, split, ih]
      split
      · rfl
      · cases hrest : split separator rest with
        | nil =>
            exact absurd hrest (split_ne_nil rest)
        | cons piece pieces =>
            rfl

theorem split_of_notMem
    {t : Text}
    (h : separator ∉ t) :
    split separator t = [t] := by
  induction t with
  | nil =>
      rfl
  | cons c rest ih =>
      rw [List.mem_cons, not_or] at h
      rw [split, if_neg (Ne.symm h.1), ih h.2]

theorem notMem_of_mem_split
    {t piece : Text}
    (h : piece ∈ split separator t) :
    separator ∉ piece := by
  induction t generalizing piece with
  | nil =>
      rw [split, List.mem_singleton] at h
      rw [h]
      exact List.not_mem_nil
  | cons c rest ih =>
      rw [split] at h
      split at h
      · rcases List.mem_cons.mp h with rfl | h
        · exact List.not_mem_nil
        · exact ih h
      · next hc =>
        cases hrest : split separator rest with
        | nil =>
            exact absurd hrest (split_ne_nil rest)
        | cons first pieces =>
            rw [hrest] at h ih
            rcases List.mem_cons.mp h with rfl | h
            · rw [List.mem_cons, not_or]
              exact ⟨Ne.symm hc, ih (by simp)⟩
            · exact ih (List.mem_cons_of_mem first h)

/-- The code points of a piece are code points of the text. -/
theorem mem_of_mem_split
    {t piece : Text}
    {c : CodePoint}
    (h : piece ∈ split separator t)
    (hc : c ∈ piece) :
    c ∈ t := by
  induction t generalizing piece with
  | nil =>
      rw [split, List.mem_singleton] at h
      rw [h] at hc
      cases hc
  | cons d rest ih =>
      rw [split] at h
      split at h
      · rcases List.mem_cons.mp h with rfl | h
        · cases hc
        · exact List.mem_cons_of_mem d (ih h hc)
      · cases hrest : split separator rest with
        | nil =>
            exact absurd hrest (split_ne_nil rest)
        | cons first pieces =>
            rw [hrest] at h ih
            rcases List.mem_cons.mp h with rfl | h
            · rcases List.mem_cons.mp hc with rfl | hc
              · simp
              · exact List.mem_cons_of_mem d (ih List.mem_cons_self hc)
            · exact List.mem_cons_of_mem d (ih (List.mem_cons_of_mem first h) hc)

/-- The first piece stands at the front of a text, and the others stand somewhere in it. -/
theorem split_parts
    (separator : CodePoint)
    (t : Text) :
    ∃ first pieces, split separator t = first :: pieces ∧ first <+: t ∧
      ∀ piece ∈ pieces, piece <:+: t := by
  induction t with
  | nil =>
      exact ⟨[], [], rfl, List.prefix_rfl, by simp⟩
  | cons c rest ih =>
      obtain ⟨first, pieces, hsplit, hfirst, hpieces⟩ := ih
      rw [split, hsplit]
      split
      · refine ⟨[], first :: pieces, rfl, List.nil_prefix, ?_⟩
        intro piece hpiece
        rcases List.mem_cons.mp hpiece with rfl | hpiece
        · exact List.infix_cons hfirst.isInfix
        · exact List.infix_cons (hpieces piece hpiece)
      · exact ⟨c :: first, pieces, rfl, List.cons_prefix_cons.mpr ⟨rfl, hfirst⟩,
          fun piece hpiece => List.infix_cons (hpieces piece hpiece)⟩

theorem isInfix_of_mem_split
    {separator : CodePoint}
    {t piece : Text}
    (h : piece ∈ split separator t) :
    piece <:+: t := by
  obtain ⟨first, pieces, hsplit, hfirst, hpieces⟩ := split_parts separator t
  rw [hsplit, List.mem_cons] at h
  rcases h with rfl | h
  · exact hfirst.isInfix
  · exact hpieces piece h

theorem mem_join
    {between : Text}
    {ts : List Text}
    {c : CodePoint}
    (hc : c ∈ join between ts) :
    c ∈ between ∨ ∃ t ∈ ts, c ∈ t := by
  fun_induction join between ts with
  | case1 =>
      cases hc
  | case2 t =>
      exact Or.inr ⟨t, by simp, hc⟩
  | case3 t rest hne ih =>
      simp only [List.mem_append] at hc
      rcases hc with (hc | hc) | hc
      · exact Or.inr ⟨t, by simp, hc⟩
      · exact Or.inl hc
      · rcases ih hc with hc | ⟨u, hu, hc⟩
        · exact Or.inl hc
        · exact Or.inr ⟨u, List.mem_cons_of_mem t hu, hc⟩

theorem join_cons_cons
    (between t u : Text)
    (rest : List Text) :
    join between (t :: u :: rest) = t ++ between ++ join between (u :: rest) := by
  rw [join]
  simp

end Text

end Keybox

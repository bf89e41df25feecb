import Keybox.Proofs.Except
import Keybox.Proofs.Json.Strings

/-!
# How a string may be spelled

Between the quotes a code point stands for itself, or for another one after a backslash, or is given
by the hexadecimal digits of its number, of either case; one above the basic plane may be given by
the numbers of its two surrogates. The spellings are described here apart from the reader.

**Results.** The reader takes a text for a string exactly when the text spells it. A spelling without
surrogates may still be that of a surrogate, by its number, but never of a pair of them.
-/

namespace Keybox

namespace Json

/-- Four hexadecimal digits and the code point that they number. -/
def Numbers
    (u : Text)
    (c : CodePoint) : Prop :=
  ∃ (w x y z : CodePoint) (i j k l : Nat), u = [w, x, y, z] ∧
    w.hexValue? = some i ∧ x.hexValue? = some j ∧ y.hexValue? = some k ∧ z.hexValue? = some l ∧
      c.val = i * 0x1000 + j * 0x100 + k * 0x10 + l

/-- A text begins with the escape of a low surrogate. -/
def StartsLow
    (t : Text) : Prop :=
  ∃ u low rest, t = chr '\\' :: chr 'u' :: (u ++ rest) ∧ Numbers u low ∧ low.isLowSurrogate = true

/-- What a code point may stand for after a backslash. -/
def shortEscapes : List (CodePoint × CodePoint) :=
  [(chr '"', chr '"'), (chr '\\', chr '\\'), (chr '/', chr '/'), (chr 'b', 0x08),
    (chr 'f', 0x0C), (chr 'n', 0x0A), (chr 'r', 0x0D), (chr 't', 0x09)]

/-- What may stand between the quotes for a string. The number of a high surrogate stands for that
surrogate only where the number of a low one does not follow. -/
inductive Spells : Text → Text → Prop where
  | nil :
      Spells [] []
  | plain
      {c : CodePoint}
      {body t : Text} :
      c ≠ chr '"' → c ≠ chr '\\' → 0x20 ≤ c.val →
        Spells body t → Spells (c :: body) (c :: t)
  | short
      {e c : CodePoint}
      {body t : Text} :
      (e, c) ∈ shortEscapes →
        Spells body t → Spells (chr '\\' :: e :: body) (c :: t)
  | unit
      {u : Text}
      {c : CodePoint}
      {body t : Text} :
      Numbers u c → (c.isHighSurrogate = true → ¬ StartsLow body) →
        Spells body t → Spells (chr '\\' :: chr 'u' :: (u ++ body)) (c :: t)
  | pair
      {u v : Text}
      {high low c : CodePoint}
      {body t : Text} :
      Numbers u high → Numbers v low → high.isHighSurrogate = true → low.isLowSurrogate = true →
        c.val = 0x10000 + (high.val - 0xD800) * 0x400 + (low.val - 0xDC00) →
          Spells body t →
            Spells (chr '\\' :: chr 'u' :: (u ++ chr '\\' :: chr 'u' :: (v ++ body))) (c :: t)

/-! ## The parts of an escape -/

theorem Numbers.length_eq
    {u : Text}
    {c : CodePoint}
    (h : Numbers u c) :
    u.length = 4 := by
  obtain ⟨w, x, y, z, i, j, k, l, rfl, -⟩ := h
  rfl

theorem Numbers.drop_append
    {u : Text}
    {c : CodePoint}
    (h : Numbers u c)
    (rest : Text) :
    (u ++ rest).drop 4 = rest :=
  List.drop_left' h.length_eq

/-- The quote is no hexadecimal digit. -/
theorem Numbers.quote_notMem
    {u : Text}
    {c : CodePoint}
    (h : Numbers u c) :
    chr '"' ∉ u := by
  obtain ⟨w, x, y, z, i, j, k, l, rfl, hw, hx, hy, hz, -⟩ := h
  have hquote : (chr '"').hexValue? = none := by decide
  simp only [List.mem_cons, List.not_mem_nil, or_false, not_or]
  refine ⟨?_, ?_, ?_, ?_⟩
  · rintro rfl
    cases hquote.symm.trans hw
  · rintro rfl
    cases hquote.symm.trans hx
  · rintro rfl
    cases hquote.symm.trans hy
  · rintro rfl
    cases hquote.symm.trans hz

theorem hexValue?_lt
    {c : CodePoint}
    {n : Nat}
    (h : c.hexValue? = some n) :
    n < 16 := by
  rw [CodePoint.hexValue?] at h
  split_ifs at h <;> cases h <;> omega

/-- Four digits are read as the code point that they number if more text follows. -/
theorem fourHex?_eq_some_iff
    {t : Text}
    {c : CodePoint} :
    fourHex? t = some c ↔ ∃ u rest, t = u ++ rest ∧ rest ≠ [] ∧ Numbers u c := by
  constructor
  · intro h
    rw [fourHex?.eq_def] at h
    split at h
    · next w x y z e rest =>
      simp only [bind, Option.bind_eq_some_iff, pure, Option.some.injEq] at h
      obtain ⟨i, hi, j, hj, k, hk, l, hl, rfl⟩ := h
      have hi' := hexValue?_lt hi
      have hj' := hexValue?_lt hj
      have hk' := hexValue?_lt hk
      have hl' := hexValue?_lt hl
      refine ⟨[w, x, y, z], e :: rest, rfl, by simp, w, x, y, z, i, j, k, l, rfl, hi, hj, hk, hl, ?_⟩
      rw [Fin.val_ofNat]
      exact Nat.mod_eq_of_lt (by omega)
    · cases h
  · rintro ⟨u, rest, rfl, hrest, w, x, y, z, i, j, k, l, rfl, hw, hx, hy, hz, hc⟩
    obtain ⟨e, rest, rfl⟩ := List.exists_cons_of_ne_nil hrest
    simp only [List.cons_append, List.nil_append, fourHex?, hw, hx, hy, hz, bind, Option.bind, pure]
    congr 1
    refine Fin.ext ?_
    rw [Fin.val_ofNat, ← hc]
    exact Nat.mod_eq_of_lt c.isLt

theorem lowHalf?_eq_some_iff
    {t : Text}
    {low : CodePoint} :
    lowHalf? t = some low ↔
      ∃ u rest, t = chr '\\' :: chr 'u' :: (u ++ rest) ∧ rest ≠ [] ∧ Numbers u low ∧
        low.isLowSurrogate = true := by
  constructor
  · intro h
    rw [lowHalf?.eq_def] at h
    split at h
    · next b e rest =>
      split_ifs at h with hstart
      obtain ⟨rfl, rfl⟩ := hstart
      split at h
      · next d hd =>
        split_ifs at h with hlow
        cases h
        obtain ⟨u, rest, rfl, hrest, hu⟩ := fourHex?_eq_some_iff.mp hd
        exact ⟨u, rest, rfl, hrest, hu, hlow⟩
      · cases h
    · cases h
  · rintro ⟨u, rest, rfl, hrest, hu, hlow⟩
    have hfour := fourHex?_eq_some_iff.mpr ⟨u, rest, rfl, hrest, hu⟩
    simp only [lowHalf?, and_self, if_true, hfour, hlow]

/-- Up to the closing quote the text itself decides whether the escape of a low surrogate follows. -/
theorem lowHalf?_eq_none_iff
    {body : Text}
    (tail : Text) :
    lowHalf? (body ++ chr '"' :: tail) = none ↔ ¬ StartsLow body := by
  constructor
  · rintro h ⟨u, low, rest, rfl, hu, hlow⟩
    have hsome := lowHalf?_eq_some_iff.mpr
      ⟨u, rest ++ chr '"' :: tail, rfl, by simp, hu, hlow⟩
    rw [List.cons_append, List.cons_append, List.append_assoc, hsome] at h
    cases h
  · intro h
    cases hhalf : lowHalf? (body ++ chr '"' :: tail) with
    | none =>
        rfl
    | some low =>
        obtain ⟨u, rest, heq, -, hu, hlow⟩ := lowHalf?_eq_some_iff.mp hhalf
        refine absurd ?_ h
        -- The quote is none of the six code points of the escape, so these are in the body.
        have hnotMem : chr '"' ∉ chr '\\' :: chr 'u' :: u := by
          simp only [List.mem_cons, not_or]
          exact ⟨by decide, by decide, hu.quote_notMem⟩
        rw [← List.cons_append, ← List.cons_append] at heq
        rcases List.append_eq_append_iff.mp heq with ⟨more, hmore, htail⟩ | ⟨more, hmore, -⟩
        · cases more with
          | nil =>
              refine ⟨u, low, [], ?_, hu, hlow⟩
              rw [List.append_nil] at hmore
              rw [← hmore, List.append_nil]
          | cons c more =>
              obtain ⟨rfl, -⟩ := List.cons.inj htail
              exact absurd (by rw [hmore]; simp) hnotMem
        · exact ⟨u, low, more, hmore, hu, hlow⟩

theorem shortEscape?_eq_some_iff
    {e c : CodePoint} :
    shortEscape? e = some c ↔ (e, c) ∈ shortEscapes := by
  have hread : shortEscapes.all (fun p => shortEscape? p.1 == some p.2) = true := by decide
  constructor
  · intro h
    rw [shortEscape?] at h
    split_ifs at h with hself hb hf hn hr ht
    · cases h
      rcases hself with rfl | rfl | rfl <;> decide
    · cases h
      subst hb
      decide
    · cases h
      subst hf
      decide
    · cases h
      subst hn
      decide
    · cases h
      subst hr
      decide
    · cases h
      subst ht
      decide
  · intro hmem
    exact eq_of_beq (List.all_eq_true.mp hread (e, c) hmem)

theorem joinSurrogates_eq_iff
    {high low c : CodePoint}
    (hhigh : high.isHighSurrogate = true)
    (hlow : low.isLowSurrogate = true) :
    joinSurrogates high low = c ↔
      c.val = 0x10000 + (high.val - 0xD800) * 0x400 + (low.val - 0xDC00) := by
  rw [CodePoint.isHighSurrogate, decide_eq_true_eq] at hhigh
  rw [CodePoint.isLowSurrogate, decide_eq_true_eq] at hlow
  have hval : (joinSurrogates high low).val =
      0x10000 + (high.val - 0xD800) * 0x400 + (low.val - 0xDC00) := by
    rw [joinSurrogates, Fin.val_ofNat]
    exact Nat.mod_eq_of_lt (by omega)
  rw [Fin.ext_iff, hval]
  exact eq_comm

/-! ## What the reader takes -/

/-- A reading whose value was changed stops where it stopped before. -/
theorem map_fst_eq_ok_iff
    {α β : Type}
    {f : α → β}
    {r : Reading α}
    {b : β}
    {stop : Cursor} :
    (r.map fun p => (f p.1, p.2)) = .ok (b, stop) ↔ ∃ a, b = f a ∧ r = .ok (a, stop) := by
  rw [map_eq_ok_iff]
  constructor
  · rintro ⟨⟨a, c⟩, hr, h⟩
    cases h
    exact ⟨a, rfl, hr⟩
  · rintro ⟨a, rfl, hr⟩
    exact ⟨(a, stop), hr, rfl⟩

theorem prepend_eq_ok_iff
    {c : CodePoint}
    {r : Reading Text}
    {t : Text}
    {stop : Cursor} :
    prepend c r = .ok (t, stop) ↔ ∃ s, t = c :: s ∧ r = .ok (s, stop) :=
  map_fst_eq_ok_iff

/-- Whatever spells a string is read as it, up to behind the quote. -/
theorem Spells.readText_eq
    {body t : Text}
    (h : Spells body t)
    (opening offset : Nat)
    (tail : Text) :
    ∃ stop, readText opening offset (body ++ chr '"' :: tail) = .ok (t, ⟨stop, tail⟩) := by
  induction h generalizing offset with
  | nil =>
      exact ⟨_, readText_quote opening offset tail⟩
  | plain hquote hbackslash hcontrol _ ih =>
      obtain ⟨stop, hstop⟩ := ih (offset + 1)
      exact ⟨stop, (readText_plain opening offset hquote hbackslash hcontrol _).trans
        (prepend_eq_ok_iff.mpr ⟨_, rfl, hstop⟩)⟩
  | @short e c body t hescape _ ih =>
      obtain ⟨stop, hstop⟩ := ih (offset + 2)
      have hu : shortEscapes.all (fun p => p.1 != chr 'u') = true := by decide
      exact ⟨stop, (readText_short opening offset (bne_iff_ne.mp (List.all_eq_true.mp hu _ hescape))
        (shortEscape?_eq_some_iff.mpr hescape) _).trans (prepend_eq_ok_iff.mpr ⟨_, rfl, hstop⟩)⟩
  | @unit u c body t hu hlone _ ih =>
      obtain ⟨stop, hstop⟩ := ih (offset + 6)
      have hfour : fourHex? (u ++ (body ++ chr '"' :: tail)) = some c :=
        fourHex?_eq_some_iff.mpr ⟨u, _, rfl, by simp, hu⟩
      refine ⟨stop, ?_⟩
      simp only [List.cons_append, List.append_assoc]
      rw [readText_unit opening offset hfour, hu.drop_append]
      · exact prepend_eq_ok_iff.mpr ⟨_, rfl, hstop⟩
      · rw [hu.drop_append]
        exact fun hhigh => (lowHalf?_eq_none_iff tail).mpr (hlone hhigh)
  | @pair u v high low c body t hu hv hhigh hlow hc _ ih =>
      obtain ⟨stop, hstop⟩ := ih (offset + 12)
      have hfour : fourHex? (u ++ (chr '\\' :: chr 'u' :: (v ++ (body ++ chr '"' :: tail)))) =
          some high :=
        fourHex?_eq_some_iff.mpr ⟨u, _, rfl, by simp, hu⟩
      have hhalf : lowHalf? (chr '\\' :: chr 'u' :: (v ++ (body ++ chr '"' :: tail))) = some low :=
        lowHalf?_eq_some_iff.mpr ⟨v, _, rfl, by simp, hv, hlow⟩
      have hdrop : (u ++ (chr '\\' :: chr 'u' :: (v ++ (body ++ chr '"' :: tail)))).drop 10 =
          body ++ chr '"' :: tail := by
        have happend : u ++ (chr '\\' :: chr 'u' :: (v ++ (body ++ chr '"' :: tail))) =
            (u ++ chr '\\' :: chr 'u' :: v) ++ (body ++ chr '"' :: tail) := by
          simp
        rw [happend]
        exact List.drop_left' (by simp [hu.length_eq, hv.length_eq])
      refine ⟨stop, ?_⟩
      simp only [List.cons_append, List.append_assoc]
      rw [readText_joined opening offset hfour hhigh (by rw [hu.drop_append, hhalf]), hdrop,
        (joinSurrogates_eq_iff hhigh hlow).mpr hc]
      exact prepend_eq_ok_iff.mpr ⟨_, rfl, hstop⟩

/-- What is read as a string spells it. -/
theorem spells_of_readText
    {opening offset : Nat}
    {t s : Text}
    {stop : Cursor}
    (h : readText opening offset t = .ok (s, stop)) :
    ∃ body, t = body ++ chr '"' :: stop.rest ∧ Spells body s := by
  fun_induction readText opening offset t generalizing s with
  | case1 offset =>
      cases h
  | case2 offset rest =>
      cases h
      exact ⟨[], rfl, .nil⟩
  | case3 offset _ =>
      cases h
  | case4 offset rest _ _ =>
      cases h
  | case5 offset rest high hfour low hlow _ ih =>
      obtain ⟨s, rfl, hread⟩ := prepend_eq_ok_iff.mp h
      obtain ⟨body, hbody, hspells⟩ := ih hread
      split_ifs at hlow with hhigh
      obtain ⟨u, rest, rfl, -, hu⟩ := fourHex?_eq_some_iff.mp hfour
      rw [hu.drop_append] at hlow
      obtain ⟨v, rest, rfl, -, hv, hhalf⟩ := lowHalf?_eq_some_iff.mp hlow
      have hdrop : (u ++ chr '\\' :: chr 'u' :: (v ++ rest)).drop 10 = rest := by
        rw [← List.drop_drop (i := 6) (j := 4), hu.drop_append]
        exact hv.drop_append rest
      rw [hdrop] at hbody
      subst hbody
      exact ⟨_, by simp, .pair hu hv hhigh hhalf
        ((joinSurrogates_eq_iff hhigh hhalf).mp rfl) hspells⟩
  | case6 offset rest d hfour hnone _ ih =>
      obtain ⟨s, rfl, hread⟩ := prepend_eq_ok_iff.mp h
      obtain ⟨body, hbody, hspells⟩ := ih hread
      obtain ⟨u, rest, rfl, -, hu⟩ := fourHex?_eq_some_iff.mp hfour
      rw [hu.drop_append] at hbody hnone
      subst hbody
      refine ⟨_, by simp, .unit hu ?_ hspells⟩
      intro hhigh
      rw [dif_pos hhigh] at hnone
      exact (lowHalf?_eq_none_iff _).mp hnone
  | case7 offset e rest _ _ _ =>
      cases h
  | case8 offset e rest hu d hd _ ih =>
      obtain ⟨s, rfl, hread⟩ := prepend_eq_ok_iff.mp h
      obtain ⟨body, rfl, hspells⟩ := ih hread
      exact ⟨_, rfl, .short (shortEscape?_eq_some_iff.mp hd) hspells⟩
  | case9 offset c rest _ _ _ =>
      cases h
  | case10 offset c rest hquote hbackslash hcontrol ih =>
      obtain ⟨s, rfl, hread⟩ := prepend_eq_ok_iff.mp h
      obtain ⟨body, rfl, hspells⟩ := ih hread
      exact ⟨_, rfl, .plain hquote hbackslash (Nat.le_of_not_lt hcontrol) hspells⟩

/-- Nothing but the quote, the backslash and the controls needs an escape. -/
theorem spells_self
    {t : Text}
    (h : ∀ c ∈ t, c ≠ chr '"' ∧ c ≠ chr '\\' ∧ 0x20 ≤ c.val) :
    Spells t t := by
  induction t with
  | nil =>
      exact .nil
  | cons c t ih =>
      obtain ⟨⟨hquote, hbackslash, hcontrol⟩, ht⟩ := List.forall_mem_cons.mp h
      exact .plain hquote hbackslash hcontrol (ih ht)

/-! ## Surrogates in what is spelled -/

/-- Without surrogates in the spelling a low one is spelled by its number. -/
theorem Spells.startsLow
    {body t : Text}
    {c : CodePoint}
    (h : Spells body (c :: t))
    (hscalar : ∀ d ∈ body, d.isSurrogate = false)
    (hlow : c.isLowSurrogate = true) :
    StartsLow body := by
  cases h with
  | plain =>
      have hc := hscalar c List.mem_cons_self
      simp only [CodePoint.isSurrogate, CodePoint.isLowSurrogate, decide_eq_false_iff_not,
        decide_eq_true_eq] at hc hlow
      omega
  | short hescape =>
      have hshort : shortEscapes.all (fun p => !p.2.isLowSurrogate) = true := by decide
      have hplain := List.all_eq_true.mp hshort _ hescape
      simp only [hlow, Bool.not_true, Bool.false_eq_true] at hplain
  | unit hu =>
      exact ⟨_, c, _, rfl, hu, hlow⟩
  | @pair _ _ high low _ _ _ _ _ hhigh hhalf hc =>
      simp only [CodePoint.isLowSurrogate, decide_eq_true_eq] at hlow
      omega

/-- **No pair comes apart.** A spelling without surrogates is of a string in which no high surrogate
stands right before a low one. -/
theorem Spells.unpaired
    {body t : Text}
    (h : Spells body t)
    (hscalar : ∀ d ∈ body, d.isSurrogate = false) :
    t.Unpaired := by
  have hcons : ∀ {c : CodePoint} {body t : Text}, Spells body t → t.Unpaired →
      (∀ d ∈ body, d.isSurrogate = false) → (c.isHighSurrogate = true → ¬ StartsLow body) →
        Text.Unpaired (c :: t) := by
    intro c body t hbody ht hscalar hlone
    cases t with
    | nil =>
        exact List.isChain_singleton c
    | cons d t =>
        refine List.isChain_cons_cons.mpr ⟨?_, ht⟩
        rintro ⟨hhigh, hlow⟩
        exact hlone hhigh (hbody.startsLow hscalar hlow)
  induction h with
  | nil =>
      exact List.isChain_nil
  | @plain c body t _ _ _ hbody ih =>
      obtain ⟨hc, hrest⟩ := List.forall_mem_cons.mp hscalar
      refine hcons hbody (ih hrest) hrest fun hhigh => ?_
      simp only [CodePoint.isSurrogate, CodePoint.isHighSurrogate, decide_eq_false_iff_not,
        decide_eq_true_eq] at hc hhigh
      omega
  | @short e c body t hescape hbody ih =>
      have hrest : ∀ d ∈ body, d.isSurrogate = false :=
        fun d hd => hscalar d (List.mem_cons_of_mem _ (List.mem_cons_of_mem _ hd))
      refine hcons hbody (ih hrest) hrest fun hhigh => ?_
      have hshort : shortEscapes.all (fun p => !p.2.isHighSurrogate) = true := by decide
      have hplain := List.all_eq_true.mp hshort _ hescape
      simp only [hhigh, Bool.not_true, Bool.false_eq_true] at hplain
  | @unit u c body t _ hlone hbody ih =>
      have hrest : ∀ d ∈ body, d.isSurrogate = false :=
        fun d hd => hscalar d (by simp [hd])
      exact hcons hbody (ih hrest) hrest hlone
  | @pair u v high low c body t _ _ _ _ hc hbody ih =>
      have hrest : ∀ d ∈ body, d.isSurrogate = false :=
        fun d hd => hscalar d (by simp [hd])
      refine hcons hbody (ih hrest) hrest fun hhigh => ?_
      simp only [CodePoint.isHighSurrogate, decide_eq_true_eq] at hhigh
      omega

end Json

end Keybox

import Keybox.Proofs.Path
import Keybox.Proofs.Text.Quoted

/-!
# What paths inherit from their parts

Paths are made by joining, cutting and normalising texts. All of these only take parts of a text and
put texts together at slashes. A property that parts have with the whole, and that texts put
together at slashes and points have with both sides, is one that every path has with the texts it is
made from.

**Results.** Lacking a payload is such a property, and so is lacking it between quotes.
-/

namespace Keybox

namespace Text

/-- Whether a text is short and shown as it is between quotes. -/
def isPlain
    (t : Text) : Bool :=
  Base58.isShort t && t.all fun c => CodePoint.quotedWith (chr '\'') c == [c]

theorem escaped_of_isPlain
    {t : Text}
    (h : t.isPlain = true) :
    escaped (chr '\'') t = t := by
  rw [isPlain, Bool.and_eq_true, List.all_eq_true] at h
  exact escaped_eq_self fun c hc => beq_iff_eq.mp (h.2 c hc)

end Text

namespace Path

/-- A property of texts that goes from parts to paths. -/
structure Inherited
    (Q : Text → Prop) : Prop where
  part : ∀ {s t : Text}, s <:+: t → Q t → Q s
  slash : ∀ {s t : Text}, Q s → Q t → Q (s ++ slash :: t)
  point : ∀ {s t : Text}, Q s → Q t → Q (s ++ chr '.' :: t)
  plain : ∀ {t : Text}, t.isPlain = true → Q t

theorem inherited_lacks
    {secret : Text}
    (hs : Base58.IsPayload secret) :
    Inherited fun t => t.Lacks secret where
  part := Base58.IsPayload.lacks_of_infix
  slash := hs.lacks_append_cons (by decide)
  point := hs.lacks_append_cons (by decide)
  plain := fun h => hs.lacks_of_isShort (Bool.and_eq_true_iff.mp h).1

theorem inherited_escaped
    {secret : Text}
    (hs : Base58.IsPayload secret) :
    Inherited fun t => (Text.escaped (chr '\'') t).Lacks secret where
  part := fun h => Base58.IsPayload.lacks_of_infix (Text.escaped_infix h _)
  slash := by
    intro s t hs' ht
    rw [Text.escaped_append, Text.escaped_cons]
    exact hs.lacks_append_cons (d := Path.slash) (by decide) hs' ht
  point := by
    intro s t hs' ht
    rw [Text.escaped_append, Text.escaped_cons]
    exact hs.lacks_append_cons (d := chr '.') (by decide) hs' ht
  plain := by
    intro t ht
    rw [Text.escaped_of_isPlain ht]
    exact hs.lacks_of_isShort (Bool.and_eq_true_iff.mp ht).1

/-- Whether a text shows a payload between quotes is such a property, whatever the quotes. -/
theorem inherited_quoted
    {secret : Text}
    (hs : Base58.IsPayload secret) :
    Inherited fun t => t.quoted.Lacks secret := by
  have hquoted : ∀ t, t.quoted.Lacks secret ↔ (Text.escaped (chr '\'') t).Lacks secret :=
    hs.lacks_quoted_iff (Or.inl rfl)
  simp only [hquoted]
  exact inherited_escaped hs

namespace Inherited

variable
  {Q : Text → Prop}
  {p base : Text}

theorem nil
    (hQ : Inherited Q) :
    Q [] :=
  hQ.plain (by decide +kernel)

theorem slash_cons
    (hQ : Inherited Q)
    (hp : Q p) :
    Q (Path.slash :: p) :=
  hQ.slash hQ.nil hp

theorem join
    (hQ : Inherited Q)
    (hbase : Q base)
    (hp : Q p) :
    Q (Path.join base p) := by
  rw [Path.join]
  split
  · exact hp
  · split
    · next hends =>
      rcases hends with rfl | hlast
      · exact hp
      · obtain ⟨s, rfl⟩ := List.getLast?_eq_some_iff.mp hlast
        rw [List.append_assoc]
        exact hQ.slash (hQ.part (List.prefix_append s _).isInfix hbase) hp
    · exact hQ.slash hbase hp

theorem dirName
    (hQ : Inherited Q)
    (hp : Q p) :
    Q (Path.dirName p) :=
  hQ.part (List.IsPrefix.isInfix <| dirName_prefix p) hp

theorem of_mem_components
    (hQ : Inherited Q)
    (hp : Q p)
    {c : Text}
    (hc : c ∈ components p) :
    Q c :=
  hQ.part (Text.isInfix_of_mem_split (List.mem_filter.mp hc).1) hp

theorem join_slash
    (hQ : Inherited Q)
    {names : List Text}
    (hnames : ∀ c ∈ names, Q c) :
    Q (Text.join [Path.slash] names) := by
  induction names with
  | nil =>
      exact hQ.nil
  | cons c rest ih =>
      have hrest := ih fun d hd => hnames d (List.mem_cons_of_mem c hd)
      cases rest with
      | nil =>
          exact hnames c List.mem_cons_self
      | cons d rest =>
          rw [Text.join_cons_cons, List.append_assoc]
          exact hQ.slash (hnames c List.mem_cons_self) hrest

theorem rootSlashes_append
    (hQ : Inherited Q)
    (hp : Q p)
    (q : Text) :
    Q (rootSlashes q ++ p) := by
  rw [rootSlashes]
  split
  · exact hp
  · exact hQ.slash_cons (hQ.slash_cons hp)
  · exact hQ.slash_cons hp

theorem tidy
    (hQ : Inherited Q)
    (hp : Q p) :
    Q (Path.tidy p) := by
  rw [Path.tidy]
  split
  · exact hQ.plain (by decide +kernel)
  · apply hQ.rootSlashes_append
    apply hQ.join_slash
    exact fun c hc => hQ.of_mem_components hp (List.mem_filter.mp hc).1

theorem normalize
    (hQ : Inherited Q)
    (habsolute : isAbsolute p = true)
    (hp : Q p) :
    Q (Path.normalize p) := by
  rw [Path.normalize]
  split
  · exact hQ.plain (by decide +kernel)
  · apply hQ.rootSlashes_append
    apply hQ.join_slash
    intro c hc
    rw [habsolute] at hc
    rcases mem_of_mem_cancel (List.mem_reverse.mp hc) with h | h
    · cases h
    · exact hQ.of_mem_components hp h

theorem absolute
    (hQ : Inherited Q)
    (habsolute : isAbsolute (Path.join base p) = true)
    (hbase : Q base)
    (hp : Q p) :
    Q (Path.absolute base p) :=
  hQ.normalize habsolute (hQ.join hbase hp)

end Inherited

end Path

end Keybox

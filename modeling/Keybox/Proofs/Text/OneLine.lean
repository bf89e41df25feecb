import Keybox.Proofs.FileTree.Scratch
import Keybox.Proofs.Text.Quoted
import Keybox.Settings

/-!
# Messages on one line

What comes from outside is shown in messages by its quoted form or by numbers, and what a document
holds never shows otherwise. A line feed is then written as an escape, so that a message is one line
whatever is wrong.

**Results.** The messages for what makes the content of a file no settings, and for what keeps a file
from being read, have no line feed in them.
-/

namespace Keybox

namespace Text

/-- A text without a line feed. -/
def OneLine
    (t : Text) : Prop :=
  chr '\n' ∉ t

theorem oneLine_append_iff
    {s t : Text} :
    OneLine (s ++ t) ↔ OneLine s ∧ OneLine t := by
  rw [OneLine, List.mem_append, not_or]
  exact Iff.rfl

/-- A literal is one line if it has no line feed, which is found out by looking. -/
theorem oneLine_lit
    {s : String}
    (h : (lit s).all (fun c => c != chr '\n') = true := by decide +kernel) :
    OneLine (lit s) := by
  intro hmem
  exact absurd (List.all_eq_true.mp h _ hmem) (by decide)

theorem oneLine_of_isDigit
    {t : Text}
    (h : ∀ c ∈ t, c.isDigit = true) :
    OneLine t :=
  fun hmem => absurd (h _ hmem) (by decide)

theorem oneLine_ofNat
    (n : Nat) :
    OneLine (ofNat n) :=
  oneLine_of_isDigit fun _ hc => isDigit_of_mem_ofNat hc

theorem oneLine_ofInt
    (n : Int) :
    OneLine (ofInt n) := by
  rw [ofInt]
  split
  · exact List.not_mem_cons_of_ne_of_not_mem (by decide) (oneLine_ofNat _)
  · exact oneLine_ofNat _

theorem hexDigit_ne_lineFeed_all : ∀ n < 16, CodePoint.hexDigit n ≠ chr '\n' := by
  decide +kernel

theorem oneLine_hex
    (width n : Nat) :
    OneLine (hex width n) := by
  induction width generalizing n with
  | zero =>
      exact List.not_mem_nil
  | succ width ih =>
      refine oneLine_append_iff.mpr ⟨ih _, ?_⟩
      have hmod : CodePoint.hexDigit n = CodePoint.hexDigit (n % 16) := by
        simp [CodePoint.hexDigit]
      intro hmem
      rw [hmod] at hmem
      exact hexDigit_ne_lineFeed_all _ (Nat.mod_lt n (by decide)) (List.mem_singleton.mp hmem).symm

theorem oneLine_escapedPoint
    (c : CodePoint) :
    OneLine c.escaped := by
  rw [CodePoint.escaped]
  split
  · exact oneLine_append_iff.mpr ⟨oneLine_lit, oneLine_hex _ _⟩
  · split
    · exact oneLine_append_iff.mpr ⟨oneLine_lit, oneLine_hex _ _⟩
    · exact oneLine_append_iff.mpr ⟨oneLine_lit, oneLine_hex _ _⟩

theorem IsQuote.ne_lineFeed
    {quote : CodePoint}
    (h : IsQuote quote) :
    chr '\n' ≠ quote := by
  rcases h with rfl | rfl <;> decide

theorem oneLine_quotedWith
    {quote : CodePoint}
    (hquote : IsQuote quote)
    (c : CodePoint) :
    OneLine (CodePoint.quotedWith quote c) := by
  rw [CodePoint.quotedWith]
  split
  · next hc =>
    rw [OneLine, List.mem_cons, List.mem_singleton]
    rintro (h | rfl)
    · exact absurd h (by decide)
    · rcases hc with hc | hc
      · exact hquote.ne_lineFeed hc
      · exact absurd hc (by decide)
  · split
    · exact oneLine_lit
    · next hc =>
      split
      · exact oneLine_lit
      · split
        · exact oneLine_lit
        · split
          · exact fun hmem => hc (List.mem_singleton.mp hmem).symm
          · exact oneLine_escapedPoint c

/-- The quoted form of a text is one line. -/
theorem oneLine_quoted
    (t : Text) :
    OneLine t.quoted := by
  have hquote := isQuote_quoteFor t
  intro hmem
  simp only [quoted, List.cons_append, List.mem_cons, List.mem_append, List.mem_flatMap,
    List.not_mem_nil, or_false] at hmem
  rcases hmem with h | ⟨c, -, hc⟩ | h
  · exact hquote.ne_lineFeed h
  · exact oneLine_quotedWith hquote c hc
  · exact hquote.ne_lineFeed h

end Text

open Text

/-! ## Values -/

namespace Binary64

theorem oneLine_positional
    {ds : Text}
    (hds : OneLine ds)
    (point : Int) :
    OneLine (positional ds point) := by
  have hzeros : ∀ n, OneLine (List.replicate n (chr '0')) := by
    intro n hmem
    exact absurd (List.eq_of_mem_replicate hmem) (by decide)
  rw [positional]
  split
  · exact oneLine_append_iff.mpr
      ⟨oneLine_append_iff.mpr ⟨oneLine_lit, hzeros _⟩, hds⟩
  · split
    · refine oneLine_append_iff.mpr ⟨oneLine_append_iff.mpr ⟨?_, oneLine_lit⟩, ?_⟩
      · exact fun hmem => hds (List.mem_of_mem_take hmem)
      · exact fun hmem => hds (List.mem_of_mem_drop hmem)
    · exact oneLine_append_iff.mpr
        ⟨oneLine_append_iff.mpr ⟨hds, hzeros _⟩, oneLine_lit⟩

theorem oneLine_scientific
    {ds : Text}
    (hds : OneLine ds)
    (point : Int) :
    OneLine (scientific ds point) := by
  simp only [scientific, oneLine_append_iff]
  refine ⟨⟨⟨fun hmem => hds (List.mem_of_mem_take hmem), ?_⟩, ?_⟩, ?_⟩
  · split
    · exact List.not_mem_nil
    · exact oneLine_append_iff.mpr
        ⟨oneLine_lit, fun hmem => hds (List.mem_of_mem_drop hmem)⟩
  · split
    · exact oneLine_lit
    · exact oneLine_lit
  · split
    · exact List.not_mem_cons_of_ne_of_not_mem (by decide) (oneLine_ofNat _)
    · exact oneLine_ofNat _

theorem oneLine_text
    (x : Binary64) :
    OneLine x.text := by
  cases x with
  | nan =>
      exact oneLine_lit
  | infinite negative =>
      rw [text]
      split
      · exact oneLine_lit
      · exact oneLine_lit
  | finite negative m e =>
      have hlayout : OneLine (shortest m e).layout.1 := fun hmem =>
        oneLine_ofNat _ (List.mem_reverse.mp
          ((List.dropWhile_sublist _).mem (List.mem_reverse.mp hmem)))
      rw [text, oneLine_append_iff]
      constructor
      · split
        · exact oneLine_lit
        · exact List.not_mem_nil
      · split
        · exact oneLine_lit
        · dsimp only
          split
          · exact oneLine_positional hlayout _
          · exact oneLine_scientific hlayout _

end Binary64

namespace Json

mutual

/-- A value is shown on one line. -/
theorem oneLine_shown : (v : Json) → OneLine v.shown
  | .null => oneLine_lit
  | .bool b => by
      rw [shown]
      split
      · exact oneLine_lit
      · exact oneLine_lit
  | .int n => by
      rw [shown]
      exact oneLine_ofInt n
  | .real x => by
      rw [shown]
      exact x.oneLine_text
  | .text t => by
      rw [shown]
      exact oneLine_quoted t
  | .array items => by
      rw [shown]
      simp only [oneLine_append_iff]
      exact ⟨⟨oneLine_lit, oneLine_shownItems items⟩, oneLine_lit⟩
  | .object members => by
      rw [shown]
      simp only [oneLine_append_iff]
      exact ⟨⟨oneLine_lit, oneLine_shownMembers members⟩, oneLine_lit⟩

theorem oneLine_shownItems : (items : List Json) → OneLine (shownItems items)
  | [] => List.not_mem_nil
  | [v] => by
      rw [shownItems]
      exact oneLine_shown v
  | v :: w :: rest => by
      rw [shownItems]
      · simp only [oneLine_append_iff]
        exact ⟨⟨oneLine_shown v, oneLine_lit⟩, oneLine_shownItems (w :: rest)⟩
      · exact List.cons_ne_nil w rest

theorem oneLine_shownMembers : (members : List (Text × Json)) → OneLine (shownMembers members)
  | [] => List.not_mem_nil
  | [(name, v)] => by
      rw [shownMembers]
      simp only [oneLine_append_iff]
      exact ⟨⟨oneLine_quoted name, oneLine_lit⟩, oneLine_shown v⟩
  | (name, v) :: m :: rest => by
      rw [shownMembers]
      · simp only [oneLine_append_iff]
        exact ⟨⟨⟨⟨oneLine_quoted name, oneLine_lit⟩, oneLine_shown v⟩,
          oneLine_lit⟩, oneLine_shownMembers (m :: rest)⟩
      · exact List.cons_ne_nil m rest

end

end Json

/-! ## Messages -/

theorem Json.Fault.oneLine_message
    (document : Text)
    (fault : Json.Fault) :
    OneLine (fault.message document) := by
  cases fault with
  | malformed issue offset =>
      have hissue : OneLine issue.message := by
        cases issue <;> exact oneLine_lit
      simp only [Json.Fault.message, oneLine_append_iff]
      exact ⟨⟨⟨⟨⟨⟨⟨hissue, oneLine_lit⟩, oneLine_ofNat _⟩, oneLine_lit⟩,
        oneLine_ofNat _⟩, oneLine_lit⟩, oneLine_ofNat _⟩, oneLine_lit⟩
  | tooDeep bracket =>
      cases bracket <;> exact oneLine_lit
  | tooLong digits =>
      simp only [Json.Fault.message, oneLine_append_iff]
      exact ⟨⟨oneLine_lit, oneLine_ofNat _⟩, oneLine_lit⟩

theorem Utf8.Fault.oneLine_message
    (fault : Utf8.Fault) :
    OneLine fault.message := by
  have hreason : OneLine fault.reason.message := by
    cases fault.reason <;> exact oneLine_lit
  simp only [Utf8.Fault.message, oneLine_append_iff]
  refine ⟨⟨⟨oneLine_lit, ?_⟩, oneLine_lit⟩, hreason⟩
  split
  · simp only [oneLine_append_iff]
    exact ⟨⟨⟨oneLine_lit, oneLine_hex _ _⟩, oneLine_lit⟩, oneLine_ofNat _⟩
  · simp only [oneLine_append_iff]
    exact ⟨⟨⟨oneLine_lit, oneLine_ofNat _⟩, oneLine_lit⟩, oneLine_ofNat _⟩

theorem Unreadable.oneLine_message
    (cause : Unreadable) :
    OneLine cause.message := by
  cases cause with
  | encoding fault =>
      exact fault.oneLine_message
  | grammar document fault =>
      exact fault.oneLine_message document

theorem Unencodable.oneLine_message
    (cause : Unencodable) :
    OneLine cause.message := by
  have hcodec : OneLine cause.codecName := by
    rw [codecName]
    cases cause.encoding <;> exact oneLine_lit
  have hreason : OneLine cause.reason := by
    rw [reason]
    cases cause.encoding <;> exact oneLine_lit
  simp only [message, oneLine_append_iff]
  refine ⟨⟨⟨⟨⟨oneLine_lit, hcodec⟩, oneLine_lit⟩, ?_⟩,
    oneLine_lit⟩, hreason⟩
  split
  · simp only [oneLine_append_iff]
    exact ⟨⟨⟨oneLine_lit, oneLine_escapedPoint _⟩, oneLine_lit⟩,
      oneLine_ofNat _⟩
  · simp only [oneLine_append_iff]
    exact ⟨⟨⟨oneLine_lit, oneLine_ofNat _⟩, oneLine_lit⟩, oneLine_ofNat _⟩

theorem FileFault.oneLine_message
    (fault : FileFault) :
    OneLine fault.message := by
  cases fault with
  | system errno path second =>
      have hwords : OneLine errno.words := by
        cases errno <;> exact oneLine_lit
      simp only [message, oneLine_append_iff]
      refine ⟨⟨⟨⟨⟨⟨oneLine_lit, oneLine_ofNat _⟩, oneLine_lit⟩, hwords⟩,
        oneLine_lit⟩, oneLine_quoted path⟩, ?_⟩
      cases second with
      | none =>
          exact List.not_mem_nil
      | some other =>
          exact oneLine_append_iff.mpr ⟨oneLine_lit, oneLine_quoted other⟩
  | nullInPath =>
      exact oneLine_lit
  | unencodable cause =>
      exact cause.oneLine_message
  | tooManyMissing =>
      exact oneLine_lit

namespace Settings

theorem oneLine_notText
    {field : Text}
    (hfield : OneLine field)
    (found : Json) :
    OneLine (Fault.notText field found).message := by
  simp only [Fault.message, oneLine_append_iff]
  exact ⟨⟨⟨oneLine_lit, hfield⟩, oneLine_lit⟩, found.oneLine_shown⟩

theorem oneLine_notNetwork
    (found : Json) :
    OneLine (Fault.notNetwork found).message :=
  oneLine_append_iff.mpr ⟨oneLine_lit, found.oneLine_shown⟩

theorem oneLine_notFlag
    {field : Text}
    (hfield : OneLine field)
    (found : Json) :
    OneLine (Fault.notFlag field found).message := by
  simp only [Fault.message, oneLine_append_iff]
  exact ⟨⟨⟨oneLine_lit, hfield⟩, oneLine_lit⟩, found.oneLine_shown⟩

theorem oneLine_of_optionalText
    {members : Members}
    {field : Text}
    {fault : Fault}
    (hfield : OneLine field)
    (h : optionalText members field = .error fault) :
    OneLine fault.message := by
  rw [optionalText] at h
  split at h
  · cases h
  · cases h
  · cases h
  · cases h
    exact oneLine_notText hfield _

theorem oneLine_of_networkText
    {members : Members}
    {fault : Fault}
    (h : networkText members = .error fault) :
    OneLine fault.message := by
  rw [networkText] at h
  split at h
  · cases h
  · split at h
    · cases h
      exact oneLine_notNetwork _
    · cases h
  · cases h
    exact oneLine_notNetwork _

theorem oneLine_of_flag
    {members : Members}
    {field : Text}
    {fault : Fault}
    (hfield : OneLine field)
    (h : flag members field = .error fault) :
    OneLine fault.message := by
  rw [flag] at h
  split at h
  · cases h
  · cases h
  · cases h
    exact oneLine_notFlag hfield _

/-- Whatever is wrong with the content of a file is said on one line. -/
theorem oneLine_of_ofBytes
    {content : Bytes}
    {fault : ContentFault}
    (h : ofBytes content = .error fault) :
    OneLine fault.message := by
  rw [ofBytes] at h
  split at h
  · next f _ =>
    cases h
    exact Unreadable.oneLine_message (.encoding f)
  · next t _ =>
    split at h
    · next f _ =>
      cases h
      exact Unreadable.oneLine_message (.grammar (unifyLineEnds t) f)
    · next v _ =>
      obtain ⟨invalid, hinvalid, rfl⟩ := mapError_eq_error_iff.mp h
      cases v with
      | object members =>
          change ofMembers members = _ at hinvalid
          simp only [ofMembers, bind_eq_error_iff] at hinvalid
          rcases hinvalid with h | ⟨_, -, h | ⟨_, -, h | ⟨_, -, h | ⟨_, -, h | ⟨_, -, h⟩⟩⟩⟩⟩
          · exact oneLine_of_optionalText (oneLine_lit) h
          · exact oneLine_of_optionalText (oneLine_lit) h
          · exact oneLine_of_networkText h
          · exact oneLine_of_flag (oneLine_lit) h
          · exact oneLine_of_flag (oneLine_lit) h
          · cases h
      | _ =>
          cases hinvalid
          exact oneLine_lit

end Settings

end Keybox

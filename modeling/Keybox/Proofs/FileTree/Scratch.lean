import Mathlib.Data.List.Nodup
import Mathlib.Data.List.Perm.Subperm
import Keybox.FileTree.Operations
import Keybox.Proofs.FileTree.Table

/-!
# Temporary names

The names of temporary files are different for different numbers, so a directory cannot have them
all: among more candidates than a tree has entries one is free, and the first one that is free is
taken.
-/

namespace Keybox

namespace Text

/-- The number that decimal digits stand for, leading zeros allowed. -/
def decimalValue (t : Text) : Nat :=
  t.foldl (fun n c => n * 10 + c.digitValue) 0

theorem decimalValue_concat
    (t : Text)
    (c : CodePoint) :
    decimalValue (t ++ [c]) = decimalValue t * 10 + c.digitValue := by
  rw [decimalValue, List.foldl_append, List.foldl_cons, List.foldl_nil, decimalValue]

theorem digitValue_digitChar
    {n : Nat}
    (hn : n < 10) :
    (CodePoint.ofChar n.digitChar).digitValue = n := by
  rw [CodePoint.digitValue, CodePoint.ofChar]
  exact Nat.toNat_digitChar_sub_48_of_lt_ten hn

theorem decimalValue_zeros_append
    (k : Nat)
    (t : Text) :
    decimalValue (List.replicate k (chr '0') ++ t) = decimalValue t := by
  induction k with
  | zero =>
      rfl
  | succ k ih =>
      rw [List.replicate_succ, List.cons_append, ← ih]
      rfl

/-- A numeral stands for its number. -/
theorem decimalValue_ofNat
    (n : Nat) :
    decimalValue (ofNat n) = n := by
  induction n using Nat.strongRecOn with
  | ind n ih =>
      rw [ofNat, Nat.toDigits_eq_if (by decide)]
      split
      · next hn =>
        rw [List.map_singleton, ← List.nil_append [CodePoint.ofChar n.digitChar],
          decimalValue_concat, digitValue_digitChar hn]
        exact Nat.zero_add n
      · next hn =>
        have hquotient := ih (n / 10) (by omega)
        rw [ofNat] at hquotient
        rw [List.map_append, List.map_singleton, decimalValue_concat, hquotient,
          digitValue_digitChar (Nat.mod_lt n (by decide))]
        omega

theorem isDigit_of_mem_ofNat
    {n : Nat}
    {c : CodePoint}
    (hc : c ∈ ofNat n) :
    c.isDigit = true := by
  obtain ⟨d, hd, rfl⟩ := List.mem_map.mp hc
  have hdigit := Nat.isDigit_of_mem_toDigits (by decide) (by decide) hd
  rw [Char.isDigit_iff_toNat] at hdigit
  rw [CodePoint.isDigit, decide_eq_true_eq]
  exact hdigit

end Text

namespace FileTree

variable
  {t : FileTree}
  {directory : Place}

/-- The name of a temporary file without its ending. -/
def scratchStem (n : Nat) : Text :=
  lit ".tmp-" ++ (List.replicate (8 - (Text.ofNat n).length) (chr '0') ++ Text.ofNat n)

theorem scratchName_eq
    (n : Nat) :
    scratchName n = scratchStem n ++ lit ".json" := by
  rw [scratchStem, ← List.append_assoc]
  rfl

theorem scratchStem_injective : Function.Injective scratchStem := by
  intro m n h
  have hvalues := congrArg Text.decimalValue (List.append_cancel_left h)
  rwa [Text.decimalValue_zeros_append, Text.decimalValue_zeros_append, Text.decimalValue_ofNat,
    Text.decimalValue_ofNat] at hvalues

theorem scratchName_injective : Function.Injective scratchName := by
  intro m n h
  rw [scratchName_eq, scratchName_eq] at h
  exact scratchStem_injective (List.append_cancel_right h)

/-- The name of a temporary file has no slash. -/
theorem slash_notMem_scratchName
    (n : Nat) :
    Path.slash ∉ scratchName n := by
  rw [scratchName_eq, scratchStem]
  simp only [List.mem_append, not_or]
  refine ⟨⟨by decide, ?_, ?_⟩, by decide⟩
  · intro hslash
    exact absurd (List.eq_of_mem_replicate hslash) (by decide)
  · intro hslash
    exact absurd (Text.isDigit_of_mem_ofNat hslash) (by decide)

/-- The first free number is found: those before it are taken, and it is free unless there were no
more candidates. -/
theorem freeScratchName_spec
    (t : FileTree)
    (directory : Place)
    (tries n : Nat) :
    ∃ k, t.freeScratchName directory tries n = scratchName k ∧ k ≤ n + tries ∧
      (∀ j, n ≤ j → j < k → t.get? (directory ++ [scratchName j]) ≠ none) ∧
        (k < n + tries → t.get? (directory ++ [scratchName k]) = none) := by
  induction tries generalizing n with
  | zero =>
      exact ⟨n, rfl, Nat.le_refl n, fun j hle hlt => absurd hlt (Nat.not_lt.mpr hle),
        fun hlt => absurd hlt (Nat.lt_irrefl n)⟩
  | succ tries ih =>
      rw [freeScratchName]
      by_cases hfree : (t.get? (directory ++ [scratchName n])).isNone = true
      · rw [if_pos hfree]
        exact ⟨n, rfl, Nat.le_add_right n _, fun j hle hlt => absurd hlt (Nat.not_lt.mpr hle),
          fun _ => Option.isNone_iff_eq_none.mp hfree⟩
      · rw [if_neg hfree]
        obtain ⟨k, hk, hle, htaken, hfreeK⟩ := ih (n + 1)
        refine ⟨k, hk, by omega, ?_, fun hlt => hfreeK (by omega)⟩
        intro j hnj hjk
        rcases Nat.eq_or_lt_of_le hnj with rfl | hnj
        · exact fun hnone => hfree (Option.isNone_iff_eq_none.mpr hnone)
        · exact htaken j hnj hjk

theorem mem_of_get?_ne_none
    {place : Place}
    (hplace : place ≠ [])
    (h : t.get? place ≠ none) :
    place ∈ t.entries.map Prod.fst := by
  rw [get?_of_ne_nil _ hplace] at h
  generalize t.entries = entries at h
  induction entries with
  | nil =>
      exact absurd rfl h
  | cons e rest ih =>
      rw [lookup] at h
      split at h
      · next heq =>
        rw [List.map_cons, heq]
        exact List.mem_cons_self
      · exact List.mem_cons_of_mem _ (ih h)

/-- Different values that are all in a list are no more than its items. -/
theorem le_length_of_injective
    {α : Type}
    {f : Nat → α}
    (hf : Function.Injective f)
    {items : List α}
    {k : Nat}
    (h : ∀ j < k, f j ∈ items) :
    k ≤ items.length := by
  have hnodup : ((List.range k).map f).Nodup := List.nodup_range.map hf
  have hsubset : (List.range k).map f ⊆ items := by
    intro a ha
    obtain ⟨j, hj, rfl⟩ := List.mem_map.mp ha
    exact h j (List.mem_range.mp hj)
  have hle := (hnodup.subperm hsubset).length_le
  rwa [List.length_map, List.length_range] at hle

/-- Names that are all taken are no more than the entries of the tree. -/
theorem le_length_entries
    {k : Nat}
    (h : ∀ j < k, t.get? (directory ++ [scratchName j]) ≠ none) :
    k ≤ t.entries.length := by
  have hinjective : Function.Injective fun j => directory ++ [scratchName j] := by
    intro i j heq
    obtain ⟨-, hname⟩ := List.append_inj' heq rfl
    exact scratchName_injective (List.singleton_injective hname)
  have hle := le_length_of_injective hinjective fun j hj => mem_of_get?_ne_none (by simp) (h j hj)
  rwa [List.length_map] at hle

/-- The name of a new temporary file is free, and all names with smaller numbers are taken. -/
theorem newScratchName_spec
    (t : FileTree)
    (directory : Place) :
    ∃ k, t.newScratchName directory = scratchName k ∧
      t.get? (directory ++ [scratchName k]) = none ∧
        ∀ j < k, t.get? (directory ++ [scratchName j]) ≠ none := by
  obtain ⟨k, hk, hle, htaken, hfree⟩ :=
    freeScratchName_spec t directory t.entries.length 0
  rw [Nat.zero_add] at hle hfree
  have hbefore : ∀ j < k, t.get? (directory ++ [scratchName j]) ≠ none :=
    fun j hj => htaken j (Nat.zero_le j) hj
  refine ⟨k, hk, ?_, hbefore⟩
  rcases Nat.lt_or_eq_of_le hle with hlt | heq
  · exact hfree hlt
  · -- All candidates before the last are taken, and the entries are not enough for the last.
    by_contra htakenK
    have hall : ∀ j < k + 1, t.get? (directory ++ [scratchName j]) ≠ none := by
      intro j hj
      rcases Nat.lt_or_eq_of_le (Nat.le_of_lt_succ hj) with hj | rfl
      · exact hbefore j hj
      · exact htakenK
    have := le_length_entries hall
    omega

end FileTree

end Keybox

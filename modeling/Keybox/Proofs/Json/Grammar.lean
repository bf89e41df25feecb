import Keybox.Proofs.Json.Numerals
import Keybox.Proofs.Json.Spelling

/-!
# The grammar of documents

A document is a value with blanks around it. A value is a string in quotes, a word, a number, or has
brackets around values of one level less, with commas between them and blanks around each; before a
value in an object stand its name and a colon. The grammar is given here apart from the reader: as
the reader has one reader for each level of brackets that is left, it has one relation for each.
-/

namespace Keybox

namespace Json

/-- Nothing but blanks. -/
def IsBlanks
    (t : Text) : Prop :=
  ∀ c ∈ t, isBlank c = true

instance
    (t : Text) :
    Decidable (IsBlanks t) :=
  decidable_of_iff (t.all isBlank = true) List.all_eq_true

/-- A string in its quotes. -/
def IsQuoted
    (u t : Text) : Prop :=
  ∃ body, u = chr '"' :: (body ++ [chr '"']) ∧ Spells body t

/-- Things one after another, with commas between them and blanks around each. -/
inductive Listed
    {α : Type}
    (P : Text → α → Prop) : Text → List α → Prop where
  | one
      {s u s' : Text}
      {a : α} :
      IsBlanks s → P u a → IsBlanks s' → Listed P (s ++ (u ++ s')) [a]
  | cons
      {s u s' t : Text}
      {a : α}
      {as : List α} :
      IsBlanks s → P u a → IsBlanks s' → Listed P t as →
        Listed P (s ++ (u ++ (s' ++ chr ',' :: t))) (a :: as)

/-- What stands in brackets: things one after another, or none and only blanks. -/
def Enclosed
    {α : Type}
    (P : Text → α → Prop)
    (t : Text)
    (as : List α) : Prop :=
  (IsBlanks t ∧ as = []) ∨ Listed P t as

/-- A member of an object: its name, a colon and its value, with blanks around the colon. -/
def IsMember
    (P : Text → Json → Prop)
    (u : Text)
    (m : Text × Json) : Prop :=
  ∃ q s s' t, u = q ++ (s ++ chr ':' :: (s' ++ t)) ∧ IsQuoted q m.1 ∧ IsBlanks s ∧ IsBlanks s' ∧
    P t m.2

/-- A value, with a relation for the values in its brackets if there may be any. -/
inductive IsValueWith : Option (Text → Json → Prop) → Text → Json → Prop where
  | text
      {inner? : Option (Text → Json → Prop)}
      {u t : Text} :
      IsQuoted u t → IsValueWith inner? u (.text t)
  | word
      {inner? : Option (Text → Json → Prop)}
      {u : Text}
      {v : Json} :
      (u, v) ∈ words → IsValueWith inner? u v
  | number
      {inner? : Option (Text → Json → Prop)}
      {u : Text}
      {v : Json} :
      IsNumber u v → IsValueWith inner? u v
  | array
      {P : Text → Json → Prop}
      {t : Text}
      {vs : List Json} :
      Enclosed P t vs → IsValueWith (some P) (chr '[' :: (t ++ [chr ']'])) (.array vs)
  | object
      {P : Text → Json → Prop}
      {t : Text}
      {ms : List (Text × Json)} :
      Enclosed (IsMember P) t ms →
        IsValueWith (some P) (chr '\x7b' :: (t ++ [chr '\x7d'])) (.object (Members.ofList ms))

/-- A value with at most so many levels of brackets. -/
def IsValue : Nat → Text → Json → Prop
  | 0 => IsValueWith none
  | levels + 1 => IsValueWith (some (IsValue levels))

/-- A document of a value. -/
def IsDocument
    (document : Text)
    (v : Json) : Prop :=
  ∃ s u s', document = s ++ (u ++ s') ∧ IsBlanks s ∧ IsBlanks s' ∧ IsValue depthLimit u v

/-- A document of an object with these members one after another, in which values have at most so
many levels of brackets. -/
def IsObject
    (levels : Nat)
    (document : Text)
    (ms : List (Text × Json)) : Prop :=
  ∃ s t s', document = s ++ (chr '\x7b' :: (t ++ chr '\x7d' :: s')) ∧ IsBlanks s ∧ IsBlanks s' ∧
    Enclosed (IsMember (IsValue levels)) t ms

/-! ## More levels -/

section Levels

variable
  {α : Type}
  {P Q : Text → α → Prop}

theorem Listed.mono
    (hPQ : ∀ u a, P u a → Q u a)
    {t : Text}
    {as : List α}
    (h : Listed P t as) :
    Listed Q t as := by
  induction h with
  | one hs hu hs' =>
      exact .one hs (hPQ _ _ hu) hs'
  | cons hs hu hs' _ ih =>
      exact .cons hs (hPQ _ _ hu) hs' ih

theorem Enclosed.mono
    (hPQ : ∀ u a, P u a → Q u a)
    {t : Text}
    {as : List α}
    (h : Enclosed P t as) :
    Enclosed Q t as :=
  h.imp_right (Listed.mono hPQ)

end Levels

theorem IsMember.mono
    {P Q : Text → Json → Prop}
    (hPQ : ∀ u v, P u v → Q u v)
    {u : Text}
    {m : Text × Json}
    (h : IsMember P u m) :
    IsMember Q u m := by
  obtain ⟨q, s, s', t, hu, hq, hs, hs', ht⟩ := h
  exact ⟨q, s, s', t, hu, hq, hs, hs', hPQ _ _ ht⟩

theorem IsValue.succ
    {levels : Nat}
    {u : Text}
    {v : Json}
    (h : IsValue levels u v) :
    IsValue (levels + 1) u v := by
  induction levels generalizing u v with
  | zero =>
      cases h with
      | text hu =>
          exact .text hu
      | word hu =>
          exact .word hu
      | number hu =>
          exact .number hu
  | succ levels ih =>
      cases h with
      | text hu =>
          exact .text hu
      | word hu =>
          exact .word hu
      | number hu =>
          exact .number hu
      | array ht =>
          exact .array (ht.mono fun _ _ => ih)
      | object ht =>
          exact .object (ht.mono fun _ _ hm => hm.mono fun _ _ => ih)

theorem IsValue.mono
    {levels more : Nat}
    (hle : levels ≤ more)
    {u : Text}
    {v : Json}
    (h : IsValue levels u v) :
    IsValue more u v := by
  induction hle with
  | refl =>
      exact h
  | step _ ih =>
      exact ih.succ

/-- Blanks may stand before a list. -/
theorem Listed.blanks
    {α : Type}
    {P : Text → α → Prop}
    {s t : Text}
    {as : List α}
    (hs : IsBlanks s)
    (h : Listed P t as) :
    Listed P (s ++ t) as := by
  cases h with
  | one hs₁ hu hs' =>
      rw [← List.append_assoc]
      exact .one (List.forall_mem_append.mpr ⟨hs, hs₁⟩) hu hs'
  | cons hs₁ hu hs' ht =>
      rw [← List.append_assoc]
      exact .cons (List.forall_mem_append.mpr ⟨hs, hs₁⟩) hu hs' ht

/-- Whatever is listed stands in the text of the list. -/
theorem Listed.exists_of_mem
    {α : Type}
    {P : Text → α → Prop}
    {t : Text}
    {as : List α}
    (h : Listed P t as)
    {a : α}
    (ha : a ∈ as) :
    ∃ u, u <:+: t ∧ P u a := by
  induction h with
  | @one s u s' b _ hu _ =>
      obtain rfl := List.mem_singleton.mp ha
      exact ⟨u, ⟨s, s', by rw [List.append_assoc]⟩, hu⟩
  | @cons s u s' t b as _ hu _ _ ih =>
      rcases List.mem_cons.mp ha with rfl | ha
      · exact ⟨u, ⟨s, s' ++ chr ',' :: t, by rw [List.append_assoc]⟩, hu⟩
      · obtain ⟨v, hv, ha⟩ := ih ha
        exact ⟨v, hv.trans ⟨s ++ (u ++ (s' ++ [chr ','])), [], by simp⟩, ha⟩

theorem IsObject.isDocument
    {levels : Nat}
    (hlevels : levels < depthLimit)
    {document : Text}
    {ms : List (Text × Json)}
    (h : IsObject levels document ms) :
    IsDocument document (.object (Members.ofList ms)) := by
  obtain ⟨s, t, s', rfl, hs, hs', ht⟩ := h
  refine ⟨s, chr '\x7b' :: (t ++ [chr '\x7d']), s', by simp, hs, hs', ?_⟩
  have hvalue : IsValue (levels + 1) (chr '\x7b' :: (t ++ [chr '\x7d'])) (.object _) := .object ht
  exact hvalue.mono hlevels

theorem IsDocument.exists_isObject
    {document : Text}
    {members : Members}
    (h : IsDocument document (.object members)) :
    ∃ levels ms, IsObject levels document ms ∧ members = Members.ofList ms := by
  obtain ⟨s, u, s', rfl, hs, hs', hu⟩ := h
  obtain ⟨levels, hlevels⟩ := Nat.exists_eq_succ_of_ne_zero (by decide : depthLimit ≠ 0)
  rw [hlevels] at hu
  cases hu with
  | word hu =>
      have hwords : ∀ word ∈ words, ∀ members, word.2 ≠ .object members := by
        simp [words]
      exact absurd rfl (hwords _ hu members)
  | number hu =>
      cases hu with
      | unsigned hu =>
          cases hu
      | negative hu =>
          cases hu
  | @object _ t ms ht =>
      exact ⟨levels, ms, ⟨s, t, s', by simp, hs, hs', ht⟩, rfl⟩

/-- Only what stands in quotes is a string. -/
theorem IsValueWith.isQuoted
    {inner? : Option (Text → Json → Prop)}
    {u t : Text}
    (h : IsValueWith inner? u (.text t)) :
    IsQuoted u t := by
  cases h with
  | text hu =>
      exact hu
  | word hu =>
      have hwords : ∀ word ∈ words, ∀ t, word.2 ≠ .text t := by
        simp [words]
      exact absurd rfl (hwords _ hu t)
  | number hu =>
      cases hu with
      | unsigned hu =>
          cases hu
      | negative hu =>
          cases hu

/-- A string that is the value of a member stands in quotes in the document. -/
theorem IsObject.exists_isQuoted
    {levels : Nat}
    {document : Text}
    {ms : List (Text × Json)}
    (h : IsObject levels document ms)
    {name t : Text}
    (ht : (name, .text t) ∈ ms) :
    ∃ u, u <:+: document ∧ IsQuoted u t := by
  obtain ⟨s, body, s', rfl, -, -, ⟨-, rfl⟩ | hlisted⟩ := h
  · cases ht
  · obtain ⟨w, hw, q, r, r', u, rfl, -, -, -, hu⟩ := hlisted.exists_of_mem ht
    refine ⟨u, ?_, ?_⟩
    · have hmember : u <:+: q ++ (r ++ chr ':' :: (r' ++ u)) :=
        ⟨q ++ (r ++ chr ':' :: r'), [], by simp⟩
      exact (hmember.trans hw).trans ⟨s ++ [chr '\x7b'], chr '\x7d' :: s', by simp⟩
    · cases levels with
      | zero =>
          exact hu.isQuoted
      | succ levels =>
          exact hu.isQuoted

/-! ## Blanks -/

theorem skipBlanks_append
    {s rest : Text}
    (hs : IsBlanks s)
    (hrest : ∀ c, rest.head? = some c → isBlank c = false)
    (offset : Nat) :
    skipBlanks offset (s ++ rest) = ⟨offset + s.length, rest⟩ := by
  induction s generalizing offset with
  | nil =>
      cases rest with
      | nil =>
          rfl
      | cons c rest =>
          exact skipBlanks_cons (hrest c rfl) offset rest
  | cons c s ih =>
      obtain ⟨hc, hs⟩ := List.forall_mem_cons.mp hs
      rw [List.cons_append, skipBlanks, if_pos hc, ih hs, List.length_cons, Nat.add_assoc,
        Nat.add_comm 1]

theorem exists_skipBlanks
    (offset : Nat)
    (t : Text) :
    ∃ s, t = s ++ (skipBlanks offset t).rest ∧ IsBlanks s := by
  induction t generalizing offset with
  | nil =>
      exact ⟨[], rfl, List.forall_mem_nil _⟩
  | cons c t ih =>
      rw [skipBlanks]
      split
      · next hc =>
        obtain ⟨s, heq, hs⟩ := ih (offset + 1)
        exact ⟨c :: s, by rw [List.cons_append, ← heq], List.forall_mem_cons.mpr ⟨hc, hs⟩⟩
      · exact ⟨[], rfl, List.forall_mem_nil _⟩

theorem ends_of_isBlanks
    {s : Text}
    (hs : IsBlanks s) :
    Ends s :=
  fun c hc => .inl (hs c (List.mem_of_mem_head? hc))

theorem ends_append
    {s : Text}
    (hs : IsBlanks s)
    {c : CodePoint}
    (hc : c ∈ [chr ',', chr ']', chr '\x7d'])
    (rest : Text) :
    Ends (s ++ c :: rest) := by
  cases s with
  | nil =>
      rintro _ ⟨⟩
      exact .inr hc
  | cons d s =>
      rintro _ ⟨⟩
      exact .inl (hs _ List.mem_cons_self)

end Json

end Keybox

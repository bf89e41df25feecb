import Keybox.Proofs.World.Concealment
import Keybox.Proofs.FileTree.Growth

/-!
# Keeping a secret in its file

The writing of a secret into a file of its own conceals it everywhere but in that file. Such a
change of the world is described by the contents that may be written at each place. What is added to
them afterwards, when a log file is at the same place, are lines without the secret again.

**Results.** Such changes can be put together, and a change that conceals the secret is one of them.
So are changes of the tree that leave the files as they were, or put one content at its place.
-/

namespace Keybox

namespace World

/-- From one world to another nothing shows up that has the secret in it but what is kept at a
place: what was added to the output, to the console and to any file, also to one with such a
content, are lines without it. -/
structure ConcealsExcept
    (secret : Text)
    (kept : Place → Bytes → Prop)
    (w w' : World) : Prop where
  output : ∃ added, added.QuietLines secret ∧ w'.output = w.output ++ added
  console : ∃ added, added.QuietLines secret ∧ w'.console = w.console ++ added
  files : ∀ place serial mode content,
    w'.tree.get? place = some (.file serial mode content) →
      ∃ old added, Text.QuietLines added secret ∧ content = old ++ Utf8.encode added ∧
        (old = [] ∨ kept place old ∨
          ∃ oldMode, w.tree.get? place = some (.file serial oldMode old))

variable
  {secret : Text}
  {kept kept' : Place → Bytes → Prop}
  {w w' w'' : World}

theorem Conceals.except
    (h : w.Conceals secret w')
    (kept : Place → Bytes → Prop) :
    w.ConcealsExcept secret kept w' where
  output := h.output
  console := h.console
  files := by
    intro place serial mode content hfile
    obtain ⟨old, added, hadded, heq, hold⟩ := h.files place serial mode content hfile
    exact ⟨old, added, hadded, heq, hold.imp_right Or.inr⟩

namespace ConcealsExcept

theorem mono
    (h : w.ConcealsExcept secret kept w')
    (hkept : ∀ place content, kept place content → kept' place content) :
    w.ConcealsExcept secret kept' w' where
  output := h.output
  console := h.console
  files := by
    intro place serial mode content hfile
    obtain ⟨old, added, hadded, heq, hold⟩ := h.files place serial mode content hfile
    exact ⟨old, added, hadded, heq, hold.imp_right (Or.imp_left (hkept place old))⟩

theorem trans
    (hs : Base58.IsPayload secret)
    (h : w.ConcealsExcept secret kept w')
    (h' : w'.ConcealsExcept secret kept w'') :
    w.ConcealsExcept secret kept w'' where
  output := by
    obtain ⟨added, hadded, heq⟩ := h.output
    obtain ⟨added', hadded', heq'⟩ := h'.output
    exact ⟨added ++ added', hadded.append hs hadded', by rw [heq', heq, List.append_assoc]⟩
  console := by
    obtain ⟨added, hadded, heq⟩ := h.console
    obtain ⟨added', hadded', heq'⟩ := h'.console
    exact ⟨added ++ added', hadded.append hs hadded', by rw [heq', heq, List.append_assoc]⟩
  files := by
    intro place serial mode content hfile
    obtain ⟨old', added', hadded', rfl, hold'⟩ := h'.files place serial mode content hfile
    rcases hold' with rfl | hkept | ⟨oldMode, hold'⟩
    · exact ⟨[], added', hadded', rfl, Or.inl rfl⟩
    · exact ⟨old', added', hadded', rfl, Or.inr (Or.inl hkept)⟩
    · obtain ⟨old, added, hadded, rfl, hold⟩ := h.files place serial oldMode old' hold'
      refine ⟨old, added ++ added', hadded.append hs hadded', ?_, hold⟩
      rw [Utf8.encode_append, List.append_assoc]

end ConcealsExcept

theorem conceals_output
    (hs : Base58.IsPayload secret)
    (w : World)
    {added : Text}
    (h : added.QuietLines secret) :
    w.Conceals secret { w with output := w.output ++ added } :=
  ⟨⟨added, h, rfl⟩, (Conceals.refl hs w).console, (Conceals.refl hs w).files⟩

/-- A tree without other files than before shows nothing. -/
theorem conceals_tree
    (hs : Base58.IsPayload secret)
    (w : World)
    {t : FileTree}
    (h : ∀ place serial mode content, t.get? place = some (.file serial mode content) →
      w.tree.get? place = some (.file serial mode content)) :
    w.Conceals secret { w with tree := t } := by
  refine ⟨(Conceals.refl hs w).output, (Conceals.refl hs w).console, ?_⟩
  intro place serial mode content hfile
  exact (Conceals.refl hs w).files place serial mode content (h place serial mode content hfile)

/-- One file with a content that is kept shows nothing elsewhere. -/
theorem concealsExcept_becomes
    (hs : Base58.IsPayload secret)
    (w : World)
    {place : Place}
    {serial mode : Nat}
    {content : Bytes}
    {t : FileTree}
    (hb : w.tree.Becomes place (.file serial mode content) t)
    (hkept : kept place content) :
    w.ConcealsExcept secret kept { w with tree := t } := by
  have hrefl := (Conceals.refl hs w).except kept
  refine ⟨hrefl.output, hrefl.console, ?_⟩
  intro other serial' mode' content' hfile
  dsimp only at hfile
  rw [hb.get other] at hfile
  split at hfile
  · next heq =>
    cases hfile
    exact ⟨content, [], .nil hs, (List.append_nil content).symm, Or.inr (Or.inl (heq ▸ hkept))⟩
  · exact hrefl.files other serial' mode' content' hfile

end World

end Keybox

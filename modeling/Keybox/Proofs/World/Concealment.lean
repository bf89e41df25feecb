import Keybox.CommandLine.Run
import Keybox.Proofs.FileTree.Files
import Keybox.Proofs.FileTree.Table
import Keybox.Proofs.Log.Handlers
import Keybox.Proofs.Text.Occurrence

/-!
# Keeping a secret

A change of the world conceals a secret if whatever it adds to the output, to the console and to
files are lines that lack it. What was printed or written before does not count, so the secret may
well be in a file from the beginning; it is the file of the key itself.

Printing and logging a line that lacks the secret conceals it, whatever handlers the line goes to,
and so does the opening of a log file.
-/

namespace Keybox

namespace Text

/-- Lines that have come to their end and lack a secret. -/
structure QuietLines
    (added secret : Text) : Prop where
  ended : added = [] ∨ added.getLast? = some (chr '\n')
  lacks : added.Lacks secret

namespace QuietLines

variable {secret : Text}

theorem nil
    (hs : Base58.IsPayload secret) :
    QuietLines [] secret :=
  ⟨Or.inl rfl, hs.lacks_of_isShort (by decide)⟩

theorem line
    (hs : Base58.IsPayload secret)
    {t : Text}
    (ht : t.Lacks secret) :
    QuietLines (t ++ lit "\n") secret :=
  ⟨Or.inr (by rw [List.getLast?_append]; rfl), hs.lacks_append_closing (by decide) ht⟩

theorem append
    (hs : Base58.IsPayload secret)
    {s t : Text}
    (h : QuietLines s secret)
    (ht : QuietLines t secret) :
    QuietLines (s ++ t) secret := by
  have hended : s ++ t = [] ∨ (s ++ t).getLast? = some (chr '\n') := by
    rcases ht.ended with rfl | hlast
    · rw [List.append_nil]
      exact h.ended
    · right
      rw [List.getLast?_append, hlast]
      rfl
  refine ⟨hended, ?_⟩
  rcases h.ended with rfl | hlast
  · exact ht.lacks
  · obtain ⟨before, rfl⟩ := List.getLast?_eq_some_iff.mp hlast
    have hbefore : Text.Lacks before secret := by
      intro hin
      exact h.lacks (List.infix_append_of_infix_left hin)
    rw [List.append_assoc]
    exact hs.lacks_append_cons (by decide) hbefore ht.lacks

end QuietLines

end Text

theorem Utf8.encode_append
    (s t : Text) :
    encode (s ++ t) = encode s ++ encode t := by
  rw [encode, encode, encode, List.flatMap_append]

namespace World

/-- From one world to another nothing shows up that has the secret in it: what was added to the
output, to the console and to any file are lines without it. -/
structure Conceals
    (secret : Text)
    (w w' : World) : Prop where
  output : ∃ added, added.QuietLines secret ∧ w'.output = w.output ++ added
  console : ∃ added, added.QuietLines secret ∧ w'.console = w.console ++ added
  files : ∀ place serial mode content,
    w'.tree.get? place = some (.file serial mode content) →
      ∃ old added, Text.QuietLines added secret ∧ content = old ++ Utf8.encode added ∧
        (old = [] ∨ ∃ oldMode, w.tree.get? place = some (.file serial oldMode old))

namespace Conceals

variable {secret : Text} {w w' w'' : World}

theorem refl
    (hs : Base58.IsPayload secret)
    (w : World) :
    w.Conceals secret w where
  output := ⟨[], .nil hs, (List.append_nil _).symm⟩
  console := ⟨[], .nil hs, (List.append_nil _).symm⟩
  files := fun _ _ mode content h =>
    ⟨content, [], .nil hs, (List.append_nil content).symm, Or.inr ⟨mode, h⟩⟩

theorem trans
    (hs : Base58.IsPayload secret)
    (h : w.Conceals secret w')
    (h' : w'.Conceals secret w'') :
    w.Conceals secret w'' where
  output := by
    obtain ⟨added, hadded, heq⟩ := h.output
    obtain ⟨added', hadded', heq'⟩ := h'.output
    exact ⟨added ++ added', hadded.append hs hadded', by rw [heq', heq, List.append_assoc]⟩
  console := by
    obtain ⟨added, hadded, heq⟩ := h.console
    obtain ⟨added', hadded', heq'⟩ := h'.console
    exact ⟨added ++ added', hadded.append hs hadded', by rw [heq', heq, List.append_assoc]⟩
  files := by
    intro place serial mode content hfile
    obtain ⟨old', added', hadded', rfl, hold'⟩ := h'.files place serial mode content hfile
    rcases hold' with rfl | ⟨oldMode, hold'⟩
    · exact ⟨[], added', hadded', rfl, Or.inl rfl⟩
    · obtain ⟨old, added, hadded, rfl, hold⟩ := h.files place serial oldMode old' hold'
      refine ⟨old, added ++ added', hadded.append hs hadded', ?_, hold⟩
      rw [Utf8.encode_append, List.append_assoc]

/-- What was added to the console does not show the secret. -/
theorem lacks_of_console
    (h : w.Conceals secret w')
    {added : Text}
    (hconsole : w'.console = w.console ++ added) :
    added.Lacks secret := by
  obtain ⟨other, hother, heq⟩ := h.console
  rw [hconsole, List.append_cancel_left_eq] at heq
  rw [heq]
  exact hother.lacks

end Conceals

section

variable {secret : Text}

theorem conceals_loggers
    (hs : Base58.IsPayload secret)
    (w : World)
    (ls : Loggers) :
    w.Conceals secret { w with loggers := ls } :=
  ⟨(Conceals.refl hs w).output, (Conceals.refl hs w).console, (Conceals.refl hs w).files⟩

theorem conceals_console
    (hs : Base58.IsPayload secret)
    (w : World)
    {added : Text}
    (h : added.QuietLines secret) :
    w.Conceals secret { w with console := w.console ++ added } :=
  ⟨(Conceals.refl hs w).output, ⟨added, h, rfl⟩, (Conceals.refl hs w).files⟩

theorem conceals_append
    (hs : Base58.IsPayload secret)
    (w : World)
    (serial : Nat)
    {added : Text}
    (h : added.QuietLines secret) :
    w.Conceals secret { w with tree := w.tree.append serial (Utf8.encode added) } := by
  refine ⟨(Conceals.refl hs w).output, (Conceals.refl hs w).console, ?_⟩
  intro place serial' mode content hfile
  rw [FileTree.get?_append, Option.map_eq_some_iff] at hfile
  obtain ⟨e, he, hentry⟩ := hfile
  cases e with
  | dir _ =>
      cases hentry
  | link _ =>
      cases hentry
  | file n m old =>
      rw [FileTree.Entry.onSerial] at hentry
      split at hentry
      · next hn =>
        cases hentry
        exact ⟨old, added, h, rfl, Or.inr ⟨mode, hn ▸ he⟩⟩
      · cases hentry
        exact (Conceals.refl hs w).files place serial' mode content he

theorem conceals_addFile
    (hs : Base58.IsPayload secret)
    (w : World)
    (directory : Place)
    (name : Name)
    (mode : Nat) :
    w.Conceals secret { w with tree := w.tree.addFile (directory ++ [name]) mode } := by
  refine ⟨(Conceals.refl hs w).output, (Conceals.refl hs w).console, ?_⟩
  intro place serial mode content hfile
  rw [FileTree.get?_addFile _ (by simp)] at hfile
  split at hfile
  · cases hfile
    exact ⟨[], [], .nil hs, rfl, Or.inl rfl⟩
  · exact (Conceals.refl hs w).files place serial mode content hfile

theorem clock_deliver
    (w : World)
    (r : LogRecord)
    (h : Handler) :
    (w.deliver r h).clock = w.clock := by
  cases h with
  | console =>
      rw [deliver]
      split <;> rfl
  | file _ _ =>
      simp only [deliver]
      split <;> rfl

theorem quietLines_line
    (hs : Base58.IsPayload secret)
    {clock : Text}
    {r : LogRecord}
    (hclock : clock.Lacks secret)
    (hname : r.name.Lacks secret)
    (hmessage : r.message.Lacks secret) :
    (r.line clock).QuietLines secret := by
  have hword : r.level.word.Lacks secret := by
    apply hs.lacks_of_isShort
    cases r.level <;> decide
  apply Text.QuietLines.line hs
  simp only [List.append_assoc]
  exact hs.lacks_append_fence_append (by decide) hclock
    (hs.lacks_append_fence_append (by decide) hname
      (hs.lacks_append_fence_append (by decide) hword hmessage))

theorem conceals_deliver
    (hs : Base58.IsPayload secret)
    (w : World)
    {r : LogRecord}
    (hline : (r.line w.clock).QuietLines secret)
    (h : Handler) :
    w.Conceals secret (w.deliver r h) := by
  cases h with
  | console =>
      rw [deliver]
      split
      · exact conceals_console hs w hline
      · exact .refl hs w
  | file _ serial =>
      simp only [deliver]
      split
      · exact .refl hs w
      · exact conceals_append hs w serial hline

/-- A record whose line lacks the secret conceals it, whichever handlers get it. -/
theorem conceals_log
    (hs : Base58.IsPayload secret)
    (w : World)
    {r : LogRecord}
    (hline : (r.line w.clock).QuietLines secret) :
    w.Conceals secret (w.log r) := by
  rw [log]
  generalize w.loggers.handlersFor r.name = handlers
  induction handlers generalizing w with
  | nil =>
      exact .refl hs w
  | cons h rest ih =>
      have hfirst := conceals_deliver hs w hline h
      rw [← clock_deliver w r h] at hline
      exact hfirst.trans hs (ih (w.deliver r h) hline)

end

end World

namespace Act

variable {secret : Text}

theorem conceals_makeLogger
    (hs : Base58.IsPayload secret)
    {name : Text}
    {logFile : Option Text}
    {w w' : World}
    {r : Except Failure Unit}
    (h : (makeLogger name logFile).run w = (r, w')) :
    w.Conceals secret w' := by
  obtain ⟨loggers, hsame | ⟨directory, entry, hadds⟩⟩ := world_makeLogger name logFile w
  · obtain rfl := (congrArg Prod.snd h).symm.trans hsame
    exact World.conceals_loggers hs w loggers
  · obtain rfl := (congrArg Prod.snd h).symm.trans hadds
    exact (World.conceals_addFile hs w directory entry FileTree.plainFileMode).trans hs
      (World.conceals_loggers hs _ loggers)

end Act

end Keybox

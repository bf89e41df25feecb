import Keybox.Proofs.Log.Lineage

/-!
# What handlers write

A record is given to handlers one after another, and each writes the record's line to the console or
at the end of an open file, or drops it.

**Results.** Whatever the handlers and their order, the console grows by one line for each console
among them, unless the record is for information of the lowest level, and each file by one line for
each handler that has it open, unless the line cannot be encoded. Nothing else changes. Of the
loggers that a history accounts for each has one console, so that receivers and lines on the console
are equally many.
-/

namespace Keybox

/-! ## Files with more content -/

/-- An entry with more at the end of its content, if it is a file. -/
def Entry.withMore (more : Nat → Bytes) : Entry → Entry
  | .file serial mode content => .file serial mode (content ++ more serial)
  | e => e

namespace FileTree

/-- The tree with more at the end of each file, given by its serial number. -/
def withMore
    (t : FileTree)
    (more : Nat → Bytes) : FileTree :=
  { t with entries := t.entries.map fun e => (e.1, e.2.withMore more) }

theorem withMore_nil
    (t : FileTree) :
    t.withMore (fun _ => []) = t := by
  have hid : ∀ e : Entry, e.withMore (fun _ => []) = e := by
    intro e
    cases e <;> simp [Entry.withMore]
  simp [withMore, hid]

theorem withMore_withMore
    (t : FileTree)
    (more further : Nat → Bytes) :
    (t.withMore more).withMore further =
      t.withMore fun serial => more serial ++ further serial := by
  have hboth : ∀ e : Entry, (e.withMore more).withMore further =
      e.withMore fun serial => more serial ++ further serial := by
    intro e
    cases e <;> simp [Entry.withMore]
  simp [withMore, hboth, Function.comp_def]

theorem append_eq_withMore
    (t : FileTree)
    (serial : Nat)
    (content : Bytes) :
    t.append serial content = t.withMore fun other => if other = serial then content else [] := by
  have hone : ∀ e : Entry,
      Entry.onSerial serial (fun mode old => .file serial mode (old ++ content)) e =
        e.withMore fun other => if other = serial then content else [] := by
    intro e
    cases e with
    | file other mode old =>
        by_cases heq : other = serial <;> simp [Entry.onSerial, Entry.withMore, heq]
    | _ =>
        rfl
  simp [append, withMore, hone]

end FileTree

/-! ## Handlers one after another -/

/-- Whether a handler has the file with a serial number open. -/
def Handler.isOn (serial : Nat) : Handler → Bool
  | .console => false
  | .file _ s => s == serial

/-- How many lines of a record some handlers write on the console. -/
def LogRecord.consoleLines
    (r : LogRecord)
    (handlers : List Handler) : Nat :=
  if r.level = .debug then 0 else handlers.count .console

/-- How many times some handlers write a line to a file. -/
def Handler.fileLines
    (line : Text)
    (handlers : List Handler)
    (serial : Nat) : Nat :=
  if line.any CodePoint.isSurrogate then 0 else handlers.countP (isOn serial)

/-- A number of copies of a line, one after another. -/
def copies
    {α : Type}
    (n : Nat)
    (line : List α) : List α :=
  (List.replicate n line).flatten

theorem copies_add
    {α : Type}
    (m n : Nat)
    (line : List α) :
    copies (m + n) line = copies m line ++ copies n line := by
  rw [copies, List.replicate_add, List.flatten_append, copies, copies]

theorem LogRecord.consoleLines_cons
    (r : LogRecord)
    (handler : Handler)
    (rest : List Handler) :
    r.consoleLines (handler :: rest) = r.consoleLines [handler] + r.consoleLines rest := by
  rw [consoleLines, consoleLines, consoleLines]
  split
  · rfl
  · rw [← List.singleton_append, List.count_append]

theorem Handler.fileLines_cons
    (line : Text)
    (handler : Handler)
    (rest : List Handler)
    (serial : Nat) :
    fileLines line (handler :: rest) serial =
      fileLines line [handler] serial + fileLines line rest serial := by
  rw [fileLines, fileLines, fileLines]
  split
  · rfl
  · rw [← List.singleton_append, List.countP_append]

theorem World.deliver_console
    (w : World)
    (r : LogRecord) :
    w.deliver r .console =
      { w with
        console := w.console ++ copies (r.consoleLines [.console]) (r.line w.clock) } := by
  by_cases hlevel : r.level = .debug
  · have hlt : r.level.rank < Handler.console.level.rank := by
      rw [hlevel]
      exact Nat.zero_lt_one
    rw [deliver_of_lt hlt]
    simp [LogRecord.consoleLines, hlevel, copies]
  · have hle : Handler.console.level.rank ≤ r.level.rank := by
      revert hlevel
      cases r.level <;> decide
    rw [deliver_console_of_le hle]
    simp [LogRecord.consoleLines, hlevel, copies]

theorem World.deliver_file
    (w : World)
    (r : LogRecord)
    (path : Text)
    (serial : Nat) :
    w.deliver r (.file path serial) =
      { w with
        tree := w.tree.withMore fun other =>
          copies (Handler.fileLines (r.line w.clock) [.file path serial] other)
            (Utf8.encode (r.line w.clock)) } := by
  rw [deliver]
  split
  · next hbroken =>
    simp [Handler.fileLines, hbroken, copies, FileTree.withMore_nil]
  · next hencoded =>
    rw [FileTree.append_eq_withMore]
    congr 2
    funext other
    by_cases heq : other = serial <;>
      simp [Handler.fileLines, hencoded, Handler.isOn, copies, heq, Ne.symm]

/-- What one handler writes of a record. -/
theorem World.deliver_eq
    (w : World)
    (r : LogRecord)
    (handler : Handler) :
    w.deliver r handler =
      { w with
        console := w.console ++ copies (r.consoleLines [handler]) (r.line w.clock)
        tree := w.tree.withMore fun serial =>
          copies (Handler.fileLines (r.line w.clock) [handler] serial)
            (Utf8.encode (r.line w.clock)) } := by
  cases handler with
  | console =>
      have hnone : ∀ serial, Handler.fileLines (r.line w.clock) [.console] serial = 0 := by
        intro serial
        simp [Handler.fileLines, Handler.isOn]
      rw [deliver_console]
      simp only [hnone, copies, List.replicate_zero, List.flatten_nil, FileTree.withMore_nil]
  | file path serial =>
      have hnone : r.consoleLines [.file path serial] = 0 := by
        simp [LogRecord.consoleLines]
      rw [deliver_file]
      simp only [hnone, copies, List.replicate_zero, List.flatten_nil, List.append_nil]

/-- What some handlers write of a record, one after another. -/
theorem World.foldl_deliver
    (r : LogRecord)
    (handlers : List Handler)
    (w : World) :
    handlers.foldl (fun w h => w.deliver r h) w =
      { w with
        console := w.console ++ copies (r.consoleLines handlers) (r.line w.clock)
        tree := w.tree.withMore fun serial =>
          copies (Handler.fileLines (r.line w.clock) handlers serial)
            (Utf8.encode (r.line w.clock)) } := by
  induction handlers generalizing w with
  | nil =>
      simp [LogRecord.consoleLines, Handler.fileLines, copies, FileTree.withMore_nil]
  | cons handler rest ih =>
      rw [List.foldl_cons, ih, w.deliver_eq, r.consoleLines_cons handler rest]
      simp only [Handler.fileLines_cons _ handler rest, copies_add, FileTree.withMore_withMore,
        List.append_assoc]

/-! ## Loggers that a history accounts for -/

theorem Handler.count_console
    (handlers : List Handler) :
    handlers.count .console = (handlers.map shape).count (none, .info) := by
  induction handlers with
  | nil =>
      rfl
  | cons handler rest ih =>
      rw [List.map_cons, List.count_cons, List.count_cons, ih]
      cases handler <;> rfl

/-- The names that loggers were made with, in the order in which they were first made. -/
def Making.names (ms : List Making) : List Text :=
  (ms.map Making.name).eraseDups

theorem Making.mem_names_iff
    {ms : List Making}
    {name : Text} :
    name ∈ names ms ↔ ∃ m ∈ ms, m.name = name := by
  rw [names, List.mem_eraseDups, List.mem_map]

namespace Loggers

variable
  {ls after : Loggers}
  {ms : List Making}
  {m : Making}
  {name : Text}

theorem names_attach
    (ls : Loggers)
    (name : Text)
    (h : Handler) :
    (ls.attach name h).names = if name ∈ ls.names then ls.names else ls.names ++ [name] := by
  have hkept : Logger.name ∘ (fun l : Logger =>
      if l.name = name then { l with handlers := l.handlers ++ [h] } else l) = Logger.name := by
    funext l
    dsimp only [Function.comp]
    split <;> rfl
  rw [attach]
  simp only [find?_isSome_iff]
  split
  · rw [names, List.map_map, hkept, names]
  · rw [names, List.map_append, names]
    rfl

theorem names_attachConsole
    (ls : Loggers)
    (name : Text) :
    (ls.attachConsole name).names =
      if name ∈ ls.names then ls.names else ls.names ++ [name] := by
  rw [attachConsole]
  split
  · next hconsole =>
    have hmade : name ∈ ls.names := by
      by_contra hnone
      rw [handlersOf_of_notMem hnone] at hconsole
      cases hconsole
    rw [if_pos hmade]
  · exact names_attach ls name .console

/-- A name that was made has one console. -/
theorem Records.count_console
    (h : ls.Records ms)
    (hmade : name ∈ Making.names ms) :
    (ls.handlersOf name).count .console = 1 := by
  rw [Handler.count_console, h name, Making.shapes, if_pos (Making.mem_names_iff.mp hmade),
    List.count_cons_self, List.count_eq_zero_of_not_mem (by simp)]

/-- Loggers that were made have as many consoles as they are. -/
theorem Records.count_console_flatMap
    (h : ls.Records ms)
    {made : List Text}
    (hmade : ∀ name ∈ made, name ∈ Making.names ms) :
    (made.flatMap ls.handlersOf).count .console = made.length := by
  induction made with
  | nil =>
      rfl
  | cons name rest ih =>
      rw [List.flatMap_cons, List.count_append, h.count_console (hmade name List.mem_cons_self),
        ih fun n hn => hmade n (List.mem_cons_of_mem _ hn), List.length_cons, Nat.add_comm]

/-- A name that was made writes to the console, and to each file that was opened for it. -/
theorem Records.map_path?
    (h : ls.Records ms)
    (hmade : name ∈ Making.names ms) :
    (ls.handlersOf name).map Handler.path? = none :: (Making.opened name ms).map some := by
  have hpaths : (ls.handlersOf name).map Handler.path? =
      ((ls.handlersOf name).map Handler.shape).map Prod.fst := by
    rw [List.map_map]
    rfl
  rw [hpaths, h name, Making.shapes, if_pos (Making.mem_names_iff.mp hmade), List.map_cons,
    List.map_map]
  rfl

end Loggers

namespace Making

variable
  {ls after : Loggers}
  {ms : List Making}
  {m : Making}

theorem names_concat
    (ms : List Making)
    (m : Making) :
    names (ms ++ [m]) = if m.name ∈ names ms then names ms else names ms ++ [m.name] := by
  rw [names, List.map_append, List.map_singleton, eraseDups_concat]
  simp only [names, List.mem_eraseDups]

/-- A making adds its name to those of the loggers, unless there is such a logger already. -/
theorem Attaches.names_eq
    (h : m.Attaches ls after) :
    after.names = if m.name ∈ ls.names then ls.names else ls.names ++ [m.name] := by
  cases h with
  | opened name path serial =>
      have hmade : name ∈ (ls.attachConsole name).names := by
        rw [Loggers.names_attachConsole]
        split
        · assumption
        · exact List.mem_append_right _ (List.mem_singleton_self name)
      rw [Loggers.names_attach, if_pos hmade, Loggers.names_attachConsole]
  | _ =>
      exact Loggers.names_attachConsole ls _

/-- The loggers of a history stand in the order in which they were first made. -/
theorem Attaches.names_concat
    (hattach : m.Attaches ls after)
    (h : ls.names = names ms) :
    after.names = names (ms ++ [m]) := by
  rw [hattach.names_eq, Making.names_concat, h]

end Making

end Keybox

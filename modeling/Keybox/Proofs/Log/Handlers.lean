import Keybox.Proofs.FileTree.Files
import Mathlib.Data.List.Induction
import Mathlib.Data.List.Nodup

/-!
# Handlers are attached once

A logger gets a console when it is made for the first time, and a file handler for each log file
that it is made with. It can be made any number of times, with log files that are given in different
spellings or that cannot be opened. Files are told apart by their absolute paths.

What the loggers have is compared with a history: the list of the times that a logger was made, each
with its name, the path of the log file and whether all went well.

**Results.** Making a logger comes to one of four things, which are stated once. Whatever the
history, each logger in it has a console first and then one handler for each path that was opened
for it, in the order in which they were first opened; making one more logger keeps it so. Making
that fails attaches a console at most.
-/

namespace Keybox

/-! ## Levels -/

/-- The place of a level in the order from the least to the most serious. -/
def Level.rank : Level → Nat
  | debug => 0
  | info => 1
  | warning => 2
  | error => 3

namespace Handler

/-- The path of the file that a handler is for; a console has none. -/
def path? : Handler → Option Text
  | console => none
  | file path _ => some path

/-- The least serious level that a handler takes. -/
def level : Handler → Level
  | console => .info
  | file _ _ => .debug

/-- What a handler is for and the level it has. -/
def shape (h : Handler) : Option Text × Level :=
  (h.path?, h.level)

theorem console_mem_iff
    {hs : List Handler} :
    console ∈ hs ↔ (none, .info) ∈ hs.map shape := by
  rw [List.mem_map]
  constructor
  · intro hmem
    exact ⟨console, hmem, rfl⟩
  · rintro ⟨h, hmem, hshape⟩
    cases h with
    | console =>
        exact hmem
    | file path serial =>
        cases hshape

theorem any_isFor_iff
    {hs : List Handler}
    {path : Text} :
    hs.any (isFor path) = true ↔ (some path, .debug) ∈ hs.map shape := by
  rw [List.any_eq_true, List.mem_map]
  constructor
  · rintro ⟨h, hmem, hfor⟩
    cases h with
    | console =>
        cases hfor
    | file p serial =>
        obtain rfl : p = path := beq_iff_eq.mp hfor
        exact ⟨_, hmem, rfl⟩
  · rintro ⟨h, hmem, hshape⟩
    cases h with
    | console =>
        cases hshape
    | file p serial =>
        cases hshape
        exact ⟨_, hmem, beq_self_eq_true _⟩

end Handler

/-- A handler drops what is below its level. -/
theorem World.deliver_of_lt
    {r : LogRecord}
    {h : Handler}
    (hlevel : r.level.rank < h.level.rank)
    (w : World) :
    w.deliver r h = w := by
  cases h with
  | console =>
      have hshown : r.level.isShown = false := by
        revert hlevel
        cases r.level <;> decide
      rw [deliver, hshown]
      exact if_neg Bool.false_ne_true
  | file path serial =>
      exact absurd hlevel (Nat.not_lt_zero _)

/-- A console takes what is not below its level. -/
theorem World.deliver_console_of_le
    {r : LogRecord}
    (hlevel : Handler.console.level.rank ≤ r.level.rank)
    (w : World) :
    w.deliver r .console = { w with console := w.console ++ r.line w.clock } := by
  have hshown : r.level.isShown = true := by
    revert hlevel
    cases r.level <;> decide
  rw [deliver, if_pos hshown]

namespace Loggers

/-! ## Attaching a handler -/

/-- The loggers by name after a handler was attached. -/
theorem find?_attach
    (ls : Loggers)
    (name : Text)
    (h : Handler)
    (other : Text) :
    (ls.attach name h).find? other =
      if other = name then some ⟨name, ls.handlersOf name ++ [h]⟩ else ls.find? other := by
  rw [attach, handlersOf]
  cases hfind : ls.find? name with
  | none =>
      rw [find?] at hfind
      by_cases heq : other = name
      · subst heq
        simp [find?, List.find?_append, hfind]
      · simp [find?, List.find?_append, heq, Ne.symm heq]
  | some l =>
      rw [find?] at hfind
      have hnamed : (l.name == name) = true :=
        List.find?_some (p := fun l : Logger => l.name == name) hfind
      have hname : l.name = name := beq_iff_eq.mp hnamed
      have hkeeps : ((fun l : Logger => l.name == other) ∘ fun l =>
          if l.name = name then { l with handlers := l.handlers ++ [h] } else l) =
          fun l => l.name == other := by
        funext l
        dsimp only [Function.comp]
        split <;> rfl
      rw [Option.isSome_some, if_pos rfl, find?, List.find?_map, hkeeps]
      by_cases heq : other = name
      · subst heq
        rw [hfind, Option.map_some, if_pos hname, if_pos rfl, ← hname]
      · rw [if_neg heq, find?]
        cases hother : List.find? (fun l : Logger => l.name == other) ls with
        | none =>
            rfl
        | some k =>
            have hnamed : (k.name == other) = true :=
              List.find?_some (p := fun l : Logger => l.name == other) hother
            rw [Option.map_some, if_neg (beq_iff_eq.mp hnamed ▸ heq)]

theorem handlersOf_attach
    (ls : Loggers)
    (name : Text)
    (h : Handler) :
    (ls.attach name h).handlersOf name = ls.handlersOf name ++ [h] := by
  rw [handlersOf, find?_attach, if_pos rfl]

theorem find?_attach_of_ne
    {name other : Text}
    (hne : other ≠ name)
    (ls : Loggers)
    (h : Handler) :
    (ls.attach name h).find? other = ls.find? other := by
  rw [find?_attach, if_neg hne]

theorem find?_attachConsole_of_ne
    {name other : Text}
    (hne : other ≠ name)
    (ls : Loggers) :
    (ls.attachConsole name).find? other = ls.find? other := by
  rw [attachConsole]
  split
  · rfl
  · exact find?_attach_of_ne hne ls .console

theorem handlersOf_congr
    {ls ls' : Loggers}
    {name : Text}
    (h : ls'.find? name = ls.find? name) :
    ls'.handlersOf name = ls.handlersOf name := by
  rw [handlersOf, handlersOf, h]

/-- A console that is attached is for no file. -/
theorem any_isFor_attachConsole
    (ls : Loggers)
    (name path : Text) :
    ((ls.attachConsole name).handlersOf name).any (Handler.isFor path) =
      (ls.handlersOf name).any (Handler.isFor path) := by
  rw [attachConsole]
  split
  · rfl
  · rw [handlersOf_attach, List.any_append]
    exact Bool.or_false _

end Loggers

namespace Act

/-- The absolute path of a log file; an empty name counts as none. -/
def logPath?
    (logFile : Option Text)
    (w : World) : Option Text :=
  (logFile.filter (· ≠ [])).map (Path.absolute w.tree.workingPath)

theorem logPath?_some
    {file : Text}
    (h : file ≠ [])
    (w : World) :
    logPath? (some file) w = some (Path.absolute w.tree.workingPath file) := by
  simp [logPath?, Option.filter, h]

/-- Making a logger attaches the console, and the file unless none is asked for, it is attached
already or it cannot be opened. -/
theorem run_makeLogger
    (name : Text)
    (logFile : Option Text)
    (w : World) :
    (makeLogger name logFile).run w =
      let name := Loggers.canonical name
      let loggers := w.loggers.attachConsole name
      match logPath? logFile w with
      | none => (.ok (), { w with loggers := loggers })
      | some path =>
        if (w.loggers.handlersOf name).any (Handler.isFor path) then
          (.ok (), { w with loggers := loggers })
        else
          match (FileAct.openAppend path).run w.tree with
          | (.ok serial, t) =>
            (.ok (), { w with tree := t, loggers := loggers.attach name (.file path serial) })
          | (.error fault, t) =>
            (.error (.file fault), { w with tree := t, loggers := loggers }) := by
  simp only [makeLogger, run_bind_of_ok (run_modify _ w)]
  cases logFile with
  | none =>
      rfl
  | some file =>
      simp only [run_bind_of_ok (run_get _)]
      rw [Loggers.any_isFor_attachConsole]
      by_cases hempty : file = []
      · subst hempty
        simp only [true_or, if_true]
        rfl
      · simp only [hempty, false_or, logPath?_some hempty]
        split
        · rfl
        · rw [run_bind, run_files]
          rcases (FileAct.openAppend (Path.absolute w.tree.workingPath file)).run w.tree with
            ⟨r, t⟩
          cases r <;> rfl

/-- Making a logger changes the loggers, and adds the log file at most. -/
theorem world_makeLogger
    (name : Text)
    (logFile : Option Text)
    (w : World) :
    ∃ loggers,
      ((makeLogger name logFile).run w).2 = { w with loggers := loggers } ∨
        ∃ directory entry, ((makeLogger name logFile).run w).2 =
          { w with
            tree := w.tree.addFile (directory ++ [entry]) FileTree.plainFileMode
            loggers := loggers } := by
  rw [run_makeLogger]
  dsimp only
  split
  · exact ⟨_, .inl rfl⟩
  · split
    · exact ⟨_, .inl rfl⟩
    · split
      · next hrun =>
        obtain ⟨-, hopen⟩ := FileAct.run_onPath_eq_ok_iff.mp hrun
        rcases FileTree.openAppend_cases hopen with rfl | ⟨directory, entry, rfl⟩
        · exact ⟨_, .inl rfl⟩
        · exact ⟨_, .inr ⟨directory, entry, rfl⟩⟩
      · next hrun =>
        obtain rfl := FileAct.tree_of_run_ofStep_error hrun
        exact ⟨_, .inl rfl⟩

end Act

/-! ## Histories -/

/-- One time that a logger was made: the name it is known by, the path of the log file that was
asked for, and whether all went well. -/
structure Making where
  name : Text
  path? : Option Text
  succeeded : Bool

/-- The making of a logger in a world. -/
def Act.making
    (name : Text)
    (logFile : Option Text)
    (w : World) : Making where
  name := Loggers.canonical name
  path? := logPath? logFile w
  succeeded := ((makeLogger name logFile).run w).1.isOk

theorem Act.run_makeLogger_of_failed
    {name : Text}
    {logFile : Option Text}
    {w : World}
    (h : (making name logFile w).succeeded = false) :
    ∃ failure, ((makeLogger name logFile).run w).1 = .error failure := by
  rw [making] at h
  dsimp only at h
  cases hresult : ((makeLogger name logFile).run w).1 with
  | ok =>
      rw [hresult] at h
      cases h
  | error failure =>
      exact ⟨failure, rfl⟩

/-- Making a logger fails exactly when its log file is not attached and cannot be opened. -/
theorem Act.making_failed_iff
    {name : Text}
    {logFile : Option Text}
    {w : World} :
    (making name logFile w).succeeded = false ↔
      ∃ path fault, logPath? logFile w = some path ∧
        (w.loggers.handlersOf (Loggers.canonical name)).any (Handler.isFor path) = false ∧
        ((FileAct.openAppend path).run w.tree).1 = .error fault := by
  rw [making, run_makeLogger]
  dsimp only
  cases logPath? logFile w with
  | none =>
      exact ⟨nofun, nofun⟩
  | some path =>
      dsimp only
      split
      · next hthere =>
        refine ⟨nofun, ?_⟩
        rintro ⟨_, _, ⟨⟩, hnew, -⟩
        exact absurd hthere (Bool.eq_false_iff.mp hnew)
      · next hnew =>
        split
        · next hrun =>
          refine ⟨nofun, ?_⟩
          rintro ⟨_, _, ⟨⟩, -, hfault⟩
          rw [hrun] at hfault
          cases hfault
        · next fault _ hrun =>
          exact iff_of_true rfl ⟨path, fault, rfl, Bool.eq_false_iff.mpr hnew, by rw [hrun]⟩

/-- What the making of a logger can attach. -/
inductive Making.Attaches
    (ls : Loggers) : Making → Loggers → Prop
  | unasked
      (name : Text) :
      Attaches ls ⟨name, none, true⟩ (ls.attachConsole name)
  | attached
      (name path : Text)
      (hthere : (ls.handlersOf name).any (Handler.isFor path) = true) :
      Attaches ls ⟨name, some path, true⟩ (ls.attachConsole name)
  | opened
      (name path : Text)
      (serial : Nat)
      (hnew : ¬ (ls.handlersOf name).any (Handler.isFor path) = true) :
      Attaches ls ⟨name, some path, true⟩
        ((ls.attachConsole name).attach name (.file path serial))
  | failed
      (name path : Text) :
      Attaches ls ⟨name, some path, false⟩ (ls.attachConsole name)

theorem Act.attaches_makeLogger
    (name : Text)
    (logFile : Option Text)
    (w : World) :
    (making name logFile w).Attaches w.loggers ((makeLogger name logFile).run w).2.loggers := by
  rw [making, run_makeLogger]
  dsimp only
  cases logPath? logFile w with
  | none =>
      exact .unasked _
  | some path =>
      dsimp only
      split
      · next hthere =>
        exact .attached _ path hthere
      · next hnew =>
        split
        · next serial _ _ =>
          exact .opened _ path serial hnew
        · exact .failed _ path

section

variable
  {α : Type}
  [BEq α]
  [LawfulBEq α]

theorem eraseDups_concat
    (l : List α)
    (a : α) :
    (l ++ [a]).eraseDups = if a ∈ l then l.eraseDups else l.eraseDups ++ [a] := by
  rw [List.eraseDups_append]
  by_cases ha : a ∈ l
  · simp [List.removeAll, ha]
  · simp [List.removeAll, ha, List.eraseDups_cons]

theorem nodup_eraseDups
    (l : List α) :
    l.eraseDups.Nodup := by
  induction l using List.reverseRecOn with
  | nil =>
      exact List.nodup_nil
  | append_singleton l a ih =>
      rw [eraseDups_concat]
      split
      · exact ih
      · next ha =>
        rw [List.nodup_append]
        refine ⟨ih, List.nodup_singleton a, ?_⟩
        intro b hb c hc hbc
        rw [hbc, List.mem_singleton.mp hc] at hb
        exact ha (List.mem_eraseDups.mp hb)

end

namespace Making

/-- The path that making a logger opened for a name, if it did: then all went well. -/
def openedPath?
    (name : Text)
    (m : Making) : Option Text :=
  if m.name = name ∧ m.succeeded = true then m.path? else none

/-- The paths that were opened for a name, each where it was opened first. -/
def opened
    (name : Text)
    (ms : List Making) : List Text :=
  (ms.filterMap (openedPath? name)).eraseDups

/-- What a name has after a history: nothing if it was never made, else a console and a handler for
each path that was opened. -/
def shapes
    (name : Text)
    (ms : List Making) : List (Option Text × Level) :=
  if ∃ m ∈ ms, m.name = name then
    (none, .info) :: (opened name ms).map fun path => (some path, .debug)
  else []

variable
  {name path : Text}
  {m : Making}
  {ms : List Making}

theorem openedPath?_eq_some_iff :
    m.openedPath? name = some path ↔
      m.name = name ∧ m.succeeded = true ∧ m.path? = some path := by
  rw [openedPath?, Option.ite_none_right_eq_some, and_assoc]

theorem openedPath?_self
    (h : m.succeeded = true) :
    m.openedPath? m.name = m.path? :=
  if_pos ⟨rfl, h⟩

theorem openedPath?_of_failed
    (h : m.succeeded = false) :
    m.openedPath? name = none := by
  rw [openedPath?, h]
  exact if_neg fun hopened => Bool.false_ne_true hopened.2

theorem mem_opened_iff :
    path ∈ opened name ms ↔
      ∃ m ∈ ms, m.name = name ∧ m.succeeded = true ∧ m.path? = some path := by
  simp only [opened, List.mem_eraseDups, List.mem_filterMap, openedPath?_eq_some_iff]

theorem nodup_opened
    (name : Text)
    (ms : List Making) :
    (opened name ms).Nodup :=
  nodup_eraseDups _

theorem opened_eq_nil
    (h : ¬ ∃ m ∈ ms, m.name = name) :
    opened name ms = [] := by
  rw [List.eq_nil_iff_forall_not_mem]
  intro path hpath
  obtain ⟨m, hm, hname, -⟩ := mem_opened_iff.mp hpath
  exact h ⟨m, hm, hname⟩

theorem opened_concat_of_none
    (h : m.openedPath? name = none) :
    opened name (ms ++ [m]) = opened name ms := by
  rw [opened, opened, List.filterMap_append, List.filterMap_cons_none h, List.filterMap_nil,
    List.append_nil]

theorem opened_concat_of_some
    (h : m.openedPath? name = some path) :
    opened name (ms ++ [m]) =
      if path ∈ opened name ms then opened name ms else opened name ms ++ [path] := by
  rw [opened, opened, List.filterMap_append, List.filterMap_cons_some h, List.filterMap_nil,
    eraseDups_concat]
  simp only [List.mem_eraseDups]

theorem shapes_concat_of_ne
    (h : m.name ≠ name) :
    shapes name (ms ++ [m]) = shapes name ms := by
  have hpath : m.openedPath? name = none := if_neg fun hopened => h hopened.1
  have hmade : (∃ k ∈ ms ++ [m], k.name = name) ↔ ∃ k ∈ ms, k.name = name := by
    simp [or_and_right, exists_or, h]
  rw [shapes, shapes, opened_concat_of_none hpath, if_congr hmade rfl rfl]

theorem shapes_concat_self :
    shapes m.name (ms ++ [m]) =
      (none, .info) :: (opened m.name (ms ++ [m])).map fun path => (some path, .debug) :=
  if_pos ⟨m, List.mem_concat_self, rfl⟩

theorem file_mem_shapes_iff :
    (some path, .debug) ∈ shapes name ms ↔ path ∈ opened name ms := by
  rw [shapes]
  split
  · simp
  · next hnone =>
    simp [opened_eq_nil hnone]

end Making

/-! ## Loggers and their history -/

namespace Loggers

open Making (opened shapes)

/-- Loggers with the handlers that a history accounts for. -/
def Records
    (ls : Loggers)
    (ms : List Making) : Prop :=
  ∀ name, (ls.handlersOf name).map Handler.shape = shapes name ms

variable
  {ls : Loggers}
  {ms : List Making}

/-- With its console attached a name has the console, then what was opened for it. -/
theorem Records.attachConsole
    (h : ls.Records ms)
    (name : Text) :
    ((ls.attachConsole name).handlersOf name).map Handler.shape =
      (none, .info) :: (opened name ms).map fun path => (some path, .debug) := by
  have hshapes := h name
  rw [Loggers.attachConsole]
  by_cases hmade : ∃ m ∈ ms, m.name = name
  · rw [shapes, if_pos hmade] at hshapes
    rw [if_pos (Handler.console_mem_iff.mpr (hshapes ▸ List.mem_cons_self)), hshapes]
  · rw [shapes, if_neg hmade, List.map_eq_nil_iff] at hshapes
    rw [hshapes, if_neg List.not_mem_nil, handlersOf_attach, hshapes, Making.opened_eq_nil hmade]
    rfl

/-- The console is attached to a name that has nothing, or it is there already. -/
theorem Records.handlersOf_attachConsole
    (h : ls.Records ms)
    (name : Text) :
    (ls.attachConsole name).handlersOf name = ls.handlersOf name ∨
      ls.handlersOf name = [] ∧ (ls.attachConsole name).handlersOf name = [.console] := by
  have hshapes := h name
  rw [Loggers.attachConsole]
  by_cases hmade : ∃ m ∈ ms, m.name = name
  · rw [shapes, if_pos hmade] at hshapes
    rw [if_pos (Handler.console_mem_iff.mpr (hshapes ▸ List.mem_cons_self))]
    exact .inl rfl
  · rw [shapes, if_neg hmade, List.map_eq_nil_iff] at hshapes
    rw [hshapes, if_neg List.not_mem_nil, handlersOf_attach, hshapes]
    exact .inr ⟨rfl, rfl⟩

theorem Records.any_isFor_iff
    (h : ls.Records ms)
    {name path : Text} :
    (ls.handlersOf name).any (Handler.isFor path) = true ↔ path ∈ opened name ms := by
  rw [Handler.any_isFor_iff, h name, Making.file_mem_shapes_iff]

end Loggers

namespace Making.Attaches

variable
  {m : Making}
  {ms : List Making}
  {ls after : Loggers}

/-- Other names have what they had. -/
theorem find?_of_ne
    (hattach : m.Attaches ls after)
    {name : Text}
    (hne : name ≠ m.name) :
    after.find? name = ls.find? name := by
  cases hattach with
  | unasked =>
      exact Loggers.find?_attachConsole_of_ne hne ls
  | attached =>
      exact Loggers.find?_attachConsole_of_ne hne ls
  | opened =>
      rw [Loggers.find?_attach_of_ne hne]
      exact Loggers.find?_attachConsole_of_ne hne ls
  | failed =>
      exact Loggers.find?_attachConsole_of_ne hne ls

/-- The handlers of the name itself, with the paths that the history and this making opened. -/
theorem map_shape
    (hattach : m.Attaches ls after)
    (h : ls.Records ms) :
    (after.handlersOf m.name).map Handler.shape =
      (none, .info) :: (Making.opened m.name (ms ++ [m])).map fun path => (some path, .debug) := by
  cases hattach with
  | unasked name =>
      rw [opened_concat_of_none (openedPath?_self rfl)]
      exact h.attachConsole name
  | attached name path hthere =>
      rw [opened_concat_of_some (openedPath?_self rfl), if_pos (h.any_isFor_iff.mp hthere)]
      exact h.attachConsole name
  | opened name path serial hnew =>
      rw [opened_concat_of_some (openedPath?_self rfl), if_neg (mt h.any_isFor_iff.mpr hnew),
        Loggers.handlersOf_attach, List.map_append, List.map_append, h.attachConsole name]
      rfl
  | failed name path =>
      rw [opened_concat_of_none (openedPath?_of_failed rfl)]
      exact h.attachConsole name

/-- A history goes on with what was made. -/
theorem records
    (hattach : m.Attaches ls after)
    (h : ls.Records ms) :
    after.Records (ms ++ [m]) := by
  intro name
  by_cases hname : name = m.name
  · subst hname
    rw [shapes_concat_self]
    exact hattach.map_shape h
  · rw [shapes_concat_of_ne (Ne.symm hname), ← h name,
      Loggers.handlersOf_congr (hattach.find?_of_ne hname)]

/-- A name whose making failed has its console, and nothing else that it had not before. -/
theorem handlersOf_of_failed
    (hattach : m.Attaches ls after)
    (h : ls.Records ms)
    (hfailed : m.succeeded = false) :
    after.handlersOf m.name = ls.handlersOf m.name ∨
      ls.handlersOf m.name = [] ∧ after.handlersOf m.name = [.console] := by
  cases hattach with
  | unasked =>
      cases hfailed
  | attached =>
      cases hfailed
  | opened =>
      cases hfailed
  | failed name path =>
      exact h.handlersOf_attachConsole name

end Making.Attaches

end Keybox

import Keybox.Proofs.Log.Delivery
import Keybox.Proofs.Session.Handlers

/-!
# Delivery of records in a session

What a call of a logger writes, after any steps in which loggers were made with whatever names and
log files.

**Results.** The names of a session's loggers stand in the order of its history. So a record is
written once for each handler of its receivers: once on the console for each receiver, and once to a
file for each handler of a receiver that has the file open. A logger over which none was made writes
once to each of its own destinations.
-/

namespace Keybox

namespace Loggers

theorem canonical_ne_nil
    (name : Text) :
    canonical name ≠ [] := by
  rw [canonical]
  split
  · decide
  · assumption

variable
  {made : List Text}
  {name : Text}

/-- A logger over which none was made is the only one that gets its records. -/
theorem receivers_of_alone
    (hmade : name ∈ made)
    (hunder : ∀ outer ∈ made, ¬ LiesUnder name outer)
    (hroot : name = rootName ∨ rootName ∉ made) :
    receivers made name = [name] := by
  have hall : ∀ outer ∈ receivers made name, outer = name := by
    intro outer hmem
    obtain ⟨houter, rfl | rfl | hover⟩ := mem_receivers hmem
    · rfl
    · exact (hroot.resolve_right (not_not.mpr houter)).symm
    · exact absurd hover (hunder outer houter)
  have hsome : (receivers made name).length ≠ 0 :=
    (List.length_pos_of_mem (self_mem_receivers hmade)).ne'
  have hnodup := nodup_receivers made name
  rw [List.eq_replicate_of_mem hall, List.nodup_replicate] at hnodup
  rw [List.eq_replicate_of_mem hall, show (receivers made name).length = 1 by omega]
  rfl

end Loggers

theorem Level.ofWord?_eq_none_iff
    {word : Text} :
    ofWord? word = none ↔ word ∉ [lit "debug", lit "info", lit "warning", lit "error"] := by
  simp only [ofWord?, List.mem_cons, List.not_mem_nil, or_false, not_or]
  split_ifs <;> simp_all

namespace Session

open Loggers (LiesUnder canonical receivers rootName)

/-- The loggers of a session stand in the order in which its history made them. -/
theorem names_history
    (workingDir : Place)
    (home clock : Text)
    (steps : List Step) :
    ((initial workingDir home clock).after steps).world.loggers.names =
      Making.names (history workingDir home clock steps) :=
  holds_history (P := fun ls ms => ls.names = Making.names ms)
    Making.Attaches.names_concat rfl workingDir home clock steps

/-- What a call of a logger writes, when its loggers are those that a history accounts for. -/
theorem step_log
    {s : Session}
    {ms : List Making}
    (hrecords : s.world.loggers.Records ms)
    (hnames : s.world.loggers.names = Making.names ms)
    (name message : Text)
    (level : Level) :
    let receivers := receivers (Making.names ms) (canonical name)
    let line := LogRecord.line s.world.clock ⟨canonical name, level, message⟩
    s.step (.log name message (some level)) =
      (.ok .nothing, { s with
        world := { s.world with
          console := s.world.console ++
            copies (if level = .debug then 0 else receivers.length) line
          tree := s.world.tree.withMore fun serial =>
            copies (if line.any CodePoint.isSurrogate then 0
              else (receivers.flatMap s.world.loggers.handlersOf).countP (Handler.isOn serial))
              (Utf8.encode line) } }) := by
  intro receivers line
  have hstep : s.step (.log name message (some level)) =
      (.ok .nothing, { s with world := s.world.log ⟨canonical name, level, message⟩ }) := rfl
  have hconsoles : (receivers.flatMap s.world.loggers.handlersOf).count .console =
      receivers.length :=
    hrecords.count_console_flatMap fun n hn => (Loggers.mem_receivers hn).1
  rw [hstep, World.log, World.foldl_deliver,
    s.world.loggers.handlersFor_eq (Loggers.canonical_ne_nil name), hnames]
  simp only [LogRecord.consoleLines, Handler.fileLines, receivers, line] at hconsoles ⊢
  rw [hconsoles]

theorem name_ne_nil_of_making?
    {s : Session}
    {step : Step}
    {m : Making}
    (h : s.making? step = some m) :
    m.name ≠ [] := by
  cases step with
  | makeLogger name logFile =>
      cases h
      exact Loggers.canonical_ne_nil name
  | run words source =>
      obtain ⟨_, _, _, -, -, -, rfl⟩ := CommandLine.making?_eq_some_iff.mp h
      exact Loggers.canonical_ne_nil Store.loggerName
  | _ =>
      cases h

theorem name_ne_nil_of_mem_makings
    {s : Session}
    {steps : List Step}
    {m : Making}
    (h : m ∈ s.makings steps) :
    m.name ≠ [] := by
  induction steps generalizing s with
  | nil =>
      cases h
  | cons step rest ih =>
      rcases List.mem_append.mp h with h | h
      · exact name_ne_nil_of_making? (Option.mem_toList.mp h)
      · exact ih h

/-- No logger of a session has the empty name. -/
theorem ne_nil_of_mem_names_history
    {workingDir : Place}
    {home clock : Text}
    {steps : List Step}
    {name : Text}
    (h : name ∈ Making.names (history workingDir home clock steps)) :
    name ≠ [] := by
  obtain ⟨m, hm, rfl⟩ := Making.mem_names_iff.mp h
  rcases List.mem_cons.mp hm with rfl | hm
  · exact Loggers.canonical_ne_nil Store.loggerName
  · exact name_ne_nil_of_mem_makings hm

/-- **A record reaches its receivers.** After any steps of a session, in which loggers were made
with whatever names and log files, a call of a logger with a word for a level does this:

* A word other than the four writes nothing and changes nothing.
* Else the console grows by one line for each receiver, unless the level is the lowest one, and each
  file by one line for each handler of a receiver that has it open, unless the line holds a
  surrogate, which cannot be encoded. Each line has the called logger's name, the level and the
  message. Nothing else changes.
* The receivers are different loggers that were made: the called one, the root logger, or one whose
  name the called one's continues with a point. The first two are among them if they were made, and
  with nothing in the way so are all others.
* If the called one was made and none over it, it is the only receiver, and it writes once to the
  console and once to the file at each path that was opened for it. -/
theorem record_reaches_receivers
    (workingDir : Place)
    (home clock : Text)
    (steps : List Step)
    (name message word : Text) :
    let s := (initial workingDir home clock).after steps
    let history := history workingDir home clock steps
    let made := Making.names history
    let logger := canonical name
    let receivers := receivers made logger
    let handlers := receivers.flatMap s.world.loggers.handlersOf
    (Level.ofWord? word = none ↔
        word ∉ [lit "debug", lit "info", lit "warning", lit "error"]) ∧
      (Level.ofWord? word = none →
        s.step (.log name message (Level.ofWord? word)) = (.ok .nothing, s)) ∧
      (∀ level, Level.ofWord? word = some level →
        let line := LogRecord.line s.world.clock ⟨logger, level, message⟩
        s.step (.log name message (Level.ofWord? word)) =
          (.ok .nothing, { s with
            world := { s.world with
              console := s.world.console ++
                copies (if level = .debug then 0 else receivers.length) line
              tree := s.world.tree.withMore fun serial =>
                copies (if line.any CodePoint.isSurrogate then 0
                  else handlers.countP (Handler.isOn serial)) (Utf8.encode line) } })) ∧
      (receivers.Nodup ∧ ∀ outer ∈ receivers,
        outer ∈ made ∧ (outer = logger ∨ outer = rootName ∨ LiesUnder logger outer)) ∧
      (∀ outer ∈ made, outer = logger ∨ outer = rootName → outer ∈ receivers) ∧
      (Loggers.Unobstructed made logger → ∀ outer, outer ∈ receivers ↔
        outer ∈ made ∧ (outer = logger ∨ outer = rootName ∨ LiesUnder logger outer)) ∧
      (logger ∈ made → (∀ outer ∈ made, ¬ LiesUnder logger outer) →
        logger = rootName ∨ rootName ∉ made →
        receivers = [logger] ∧
          handlers.map Handler.path? = none :: (Making.opened logger history).map some ∧
          (Making.opened logger history).Nodup) := by
  intro s history made logger receivers handlers
  have hrecords := records_history workingDir home clock steps
  have hnames := names_history workingDir home clock steps
  refine ⟨Level.ofWord?_eq_none_iff, ?_, ?_, ⟨Loggers.nodup_receivers made logger, ?_⟩, ?_, ?_, ?_⟩
  · intro hword
    rw [hword]
    rfl
  · intro level hword
    rw [hword]
    exact step_log hrecords hnames name message level
  · exact fun outer => Loggers.mem_receivers
  · rintro outer houter (rfl | rfl)
    · exact Loggers.self_mem_receivers houter
    · exact Loggers.rootName_mem_receivers logger houter
  · intro hopen outer
    exact Loggers.mem_receivers_iff hopen fun _ => ne_nil_of_mem_names_history
  · intro hmade hunder hroot
    have halone : receivers = [logger] := Loggers.receivers_of_alone hmade hunder hroot
    have hhandlers : handlers = s.world.loggers.handlersOf logger := by
      rw [show handlers = receivers.flatMap s.world.loggers.handlersOf from rfl, halone,
        List.flatMap_singleton]
    rw [hhandlers]
    exact ⟨halone, hrecords.map_path? hmade, Making.nodup_opened logger history⟩

/-- A logger with a log file, one under it, and the root logger. -/
def nestedSteps : List Step :=
  [.makeLogger (lit "a") (some (lit "k.log")), .makeLogger (lit "a.b") none, .makeLogger [] none]

/-- A record of the inner logger is shown three times and goes to the file once. -/
theorem record_of_nested_loggers :
    let s := (initial [] [] []).after nestedSteps
    let after := (s.step (.log (lit "a.b") (lit "m") (Level.ofWord? (lit "error")))).2.world
    let line := lit " - a.b - ERROR - m\n"
    after.console = line ++ line ++ line ∧
      after.tree.get? [lit "k.log"] = some (.file 0 0o644 (Utf8.encode line)) := by
  intro s after line
  obtain ⟨-, -, hwrites, -, -, -, -⟩ :=
    record_reaches_receivers [] [] [] nestedSteps (lit "a.b") (lit "m") (lit "error")
  have hmade : Making.names (history [] [] [] nestedSteps) =
      [lit "keystore", lit "a", lit "a.b", lit "root"] := by
    with_unfolding_all rfl
  have hreceivers :
      receivers (Making.names (history [] [] [] nestedSteps)) (canonical (lit "a.b")) =
        [lit "a.b", lit "a", lit "root"] := by
    rw [hmade]
    decide
  have hstep := hwrites .error (by decide)
  rw [hreceivers] at hstep
  have hafter : after = _ := congrArg (fun r => r.2.world) hstep
  rw [hafter]
  constructor
  · with_unfolding_all rfl
  · with_unfolding_all rfl

/-- A logger and one that lies under it by two points. -/
def doubledSteps : List Step :=
  [.makeLogger (lit "a") none, .makeLogger (lit "a..b") none]

/-- A logger whose name is a beginning of the root logger's, made after one under it. -/
def youngerSteps : List Step :=
  [.makeLogger (lit "r.x") none, .makeLogger (lit "r") none]

/-- Records do not reach every logger over theirs: two points in a row let them pass one by, and so
does a beginning of the root logger's name that comes late. A line with a surrogate is not written
to a file that is open. -/
theorem records_pass_loggers_by :
    let doubled := (initial [] [] []).after doubledSteps
    let younger := (initial [] [] []).after youngerSteps
    let filed := (initial [] [] []).after [.makeLogger (lit "a") (some (lit "k.log"))]
    (LiesUnder (lit "a..b") (lit "a") ∧
        doubled.world.loggers.handlersOf (lit "a") = [.console] ∧
        (doubled.step (.log (lit "a..b") (lit "m") (some .info))).2.world.console =
          lit " - a..b - INFO - m\n") ∧
      (LiesUnder (lit "r.x") (lit "r") ∧
        younger.world.loggers.handlersOf (lit "r") = [.console] ∧
        (younger.step (.log (lit "r.x") (lit "m") (some .info))).2.world.console =
          lit " - r.x - INFO - m\n") ∧
      (filed.world.loggers.handlersOf (lit "a") = [.console, .file (lit "/k.log") 0] ∧
        (filed.step (.log (lit "a") [0xD800] (some .info))).2.world.tree.get? [lit "k.log"] =
          some (.file 0 0o644 [])) ∧
      ¬ ∀ steps name message,
        let s := (initial [] [] []).after steps
        let above := (canonical name :: Loggers.ancestors (canonical name)).filter
          (· ∈ Making.names (history [] [] [] steps))
        (s.step (.log name message (some .info))).2.world.console =
          s.world.console ++
            copies above.length (LogRecord.line s.world.clock ⟨canonical name, .info, message⟩) := by
  refine ⟨⟨⟨lit ".b", by decide⟩, ?_, ?_⟩, ⟨⟨lit "x", by decide⟩, ?_, ?_⟩, ⟨?_, ?_⟩, ?_⟩
  · with_unfolding_all rfl
  · with_unfolding_all rfl
  · with_unfolding_all rfl
  · with_unfolding_all rfl
  · with_unfolding_all rfl
  · with_unfolding_all rfl
  · intro hall
    have hlines := hall doubledSteps (lit "a..b") (lit "m")
    revert hlines
    decide +kernel

end Session

end Keybox

import Keybox.Proofs.CommandLine.Phases
import Keybox.Proofs.Session

/-!
# Handlers in a session

A session makes loggers at some of its steps: when a caller asks for one, and when a command line is
run whose settings name a log file. The store makes its own logger before the first step.

**Results.** A step that makes a logger attaches what the making of one logger can attach, and all
other steps leave the loggers as they are. So by induction on the steps the loggers of a session are
those that its history accounts for: each has one console, then one file handler for each path that
was opened for it.
-/

namespace Keybox

namespace World

/-- Nothing but the making of a logger changes the loggers. -/
theorem keptInUse_loggers
    (ls : Loggers) :
    KeptInUse fun w => w.loggers = ls where
  files := by
    intro α act _ w hw
    rw [Act.run_files]
    rcases act.run w.tree with ⟨r, t⟩
    cases r <;> exact hw
  deliver := by
    intro w hw r handler
    cases handler with
    | console =>
        rw [deliver]
        split <;> exact hw
    | file path serial =>
        simp only [deliver]
        split <;> exact hw
  printLine := fun _ => preserves_modify fun _ hw => hw
  printError := fun _ => preserves_modify fun _ hw => hw

end World

namespace CommandLine

/-- The making of a logger in the run of a command line, if it comes to that: the store's logger is
made with the log file that the settings name. -/
def making?
    (words : List Text)
    (w : World) : Option Making :=
  match Invocation.ofWords words with
  | .error _ => none
  | .ok i =>
    match settingsFound i w.tree with
    | .error _ => none
    | .ok s => (logFileOf s).map fun file => Act.making Store.loggerName (some file) w

variable
  {words : List Text}
  {i : Invocation}
  {s : Settings}
  {w : World}
  {m : Making}

/-- Once the settings are there, the loggers of a run are those after the log was opened. -/
theorem loggers_run
    (hwords : Invocation.ofWords words = .ok i)
    (hsettings : settingsFound i w.tree = .ok s)
    (source : RandomSource) :
    ((run words source).run w).2.loggers = ((openLog s).run w).2.loggers := by
  have hfound : (settingsOf i).run w = (.ok s, w) := by
    rw [run_settingsOf, hsettings]
  rcases hlog : (openLog s).run w with ⟨r, w₁⟩
  cases r with
  | error failure =>
      rw [run_of_log_error hwords hfound hlog]
  | ok =>
      obtain ⟨_, hworld⟩ := world_run hwords hfound hlog source
      rw [hworld]
      exact preserves_carryOut (World.keptInUse_loggers w₁.loggers) s.store (networkOf i s) i
        source w₁ rfl

/-- A run that makes no logger leaves the loggers as they are. -/
theorem loggers_run_of_making?_eq_none
    (h : making? words w = none)
    (source : RandomSource) :
    ((run words source).run w).2.loggers = w.loggers := by
  rw [making?] at h
  split at h
  · next stop hwords =>
    rw [run, hwords]
    cases stop <;> rfl
  · next i hwords =>
    split at h
    · next failure hsettings =>
      have hfound : (settingsOf i).run w = (.error failure, w) := by
        rw [run_settingsOf, hsettings]
      rw [run_of_settings_error hwords hfound]
      split <;> rfl
    · next s hsettings =>
      rw [loggers_run hwords hsettings, run_openLog_of_none (Option.map_eq_none_iff.mp h)]

theorem making?_eq_some_iff :
    making? words w = some m ↔
      ∃ i s file, Invocation.ofWords words = .ok i ∧ settingsFound i w.tree = .ok s ∧
        logFileOf s = some file ∧ m = Act.making Store.loggerName (some file) w := by
  rw [making?]
  constructor
  · intro h
    split at h
    · cases h
    · next i hwords =>
      split at h
      · cases h
      · next s hsettings =>
        obtain ⟨file, hfile, rfl⟩ := Option.map_eq_some_iff.mp h
        exact ⟨i, s, file, hwords, hsettings, hfile, rfl⟩
  · rintro ⟨i, s, file, hwords, hsettings, hfile, rfl⟩
    rw [hwords]
    dsimp only
    rw [hsettings]
    dsimp only
    rw [hfile, Option.map_some]

theorem attaches_run
    (h : making? words w = some m)
    (source : RandomSource) :
    m.Attaches w.loggers ((run words source).run w).2.loggers := by
  obtain ⟨i, s, file, hwords, hsettings, hfile, rfl⟩ := making?_eq_some_iff.mp h
  rw [loggers_run hwords hsettings, openLog, hfile]
  exact Act.attaches_makeLogger _ _ w

/-- A run passes it on that a logger could not be made. -/
theorem run_of_making?_failed
    (h : making? words w = some m)
    (hfailed : m.succeeded = false)
    (source : RandomSource) :
    ∃ failure, ((run words source).run w).1 = .error failure := by
  obtain ⟨i, s, file, hwords, hsettings, hfile, rfl⟩ := making?_eq_some_iff.mp h
  have hfound : (settingsOf i).run w = (.ok s, w) := by
    rw [run_settingsOf, hsettings]
  obtain ⟨failure, hlog⟩ := Act.run_makeLogger_of_failed hfailed
  have hopen : (openLog s).run w = (Act.makeLogger Store.loggerName (some file)).run w := by
    rw [openLog, hfile]
  rw [← hopen] at hlog
  exact ⟨failure, by rw [run_of_log_error hwords hfound (Prod.ext hlog rfl)]⟩

end CommandLine

namespace Session

/-- The making of a logger at a step of a session, if it comes to that. -/
def making?
    (s : Session) : Step → Option Making
  | .makeLogger name logFile => some (Act.making name logFile s.world)
  | .run words _ => CommandLine.making? words s.world
  | _ => none

/-- The makings of loggers at the steps of a session. -/
def makings
    (s : Session) : List Step → List Making
  | [] => []
  | step :: rest => (s.making? step).toList ++ (s.step step).2.makings rest

/-- The history of the loggers of a session. The store's logger was made before the first step. -/
def history
    (workingDir : Place)
    (home clock : Text)
    (steps : List Step) : List Making :=
  ⟨Loggers.canonical Store.loggerName, none, true⟩ ::
    (initial workingDir home clock).makings steps

variable
  {s : Session}
  {step : Step}
  {m : Making}
  {ms : List Making}

/-- A step at which no logger is made leaves the loggers as they are. -/
theorem loggers_step_of_making?_eq_none
    (h : s.making? step = none) :
    (s.step step).2.world.loggers = s.world.loggers := by
  cases step with
  | makeLogger name logFile =>
      cases h
  | run words source =>
      rw [Session.step, world_onWorld]
      exact CommandLine.loggers_run_of_making?_eq_none h source
  | _ =>
      exact keeps_step (World.keptInUse_loggers s.world.loggers) rfl rfl

/-- A step at which a logger is made attaches what its making can attach. -/
theorem attaches_step
    (h : s.making? step = some m) :
    m.Attaches s.world.loggers (s.step step).2.world.loggers := by
  cases step with
  | makeLogger name logFile =>
      cases h
      rw [Session.step, world_onWorld]
      exact Act.attaches_makeLogger name logFile s.world
  | run words source =>
      rw [Session.step, world_onWorld]
      exact CommandLine.attaches_run h source
  | _ =>
      cases h

/-- A step at which a logger could not be made fails. -/
theorem step_of_making?_failed
    (h : s.making? step = some m)
    (hfailed : m.succeeded = false) :
    ∃ failure, (s.step step).1 = .error failure := by
  cases step with
  | makeLogger name logFile =>
      cases h
      obtain ⟨failure, hrun⟩ := Act.run_makeLogger_of_failed hfailed
      exact ⟨failure, onWorld_of_error hrun _⟩
  | run words source =>
      obtain ⟨failure, hrun⟩ := CommandLine.run_of_making?_failed h hfailed source
      exact ⟨failure, onWorld_of_error hrun _⟩
  | _ =>
      cases h

section

variable {P : Loggers → List Making → Prop}

/-- What a making carries over from the history before it to the one that goes on with it, a step
carries over. -/
theorem holds_step
    (hP : ∀ {ls after : Loggers} {m : Making} {ms : List Making},
      m.Attaches ls after → P ls ms → P after (ms ++ [m]))
    (h : P s.world.loggers ms)
    (step : Step) :
    P (s.step step).2.world.loggers (ms ++ (s.making? step).toList) := by
  cases hmaking : s.making? step with
  | none =>
      rw [loggers_step_of_making?_eq_none hmaking, Option.toList_none, List.append_nil]
      exact h
  | some m =>
      exact hP (attaches_step hmaking) h

theorem holds_after
    (hP : ∀ {ls after : Loggers} {m : Making} {ms : List Making},
      m.Attaches ls after → P ls ms → P after (ms ++ [m]))
    (h : P s.world.loggers ms)
    (steps : List Step) :
    P (s.after steps).world.loggers (ms ++ s.makings steps) := by
  induction steps generalizing s ms with
  | nil =>
      rw [makings, List.append_nil]
      exact h
  | cons step rest ih =>
      rw [makings, ← List.append_assoc]
      exact ih (holds_step hP h step)

/-- What makings carry over holds of a session's loggers and their history, if it holds of no
loggers and no history. -/
theorem holds_history
    (hP : ∀ {ls after : Loggers} {m : Making} {ms : List Making},
      m.Attaches ls after → P ls ms → P after (ms ++ [m]))
    (hnone : P [] [])
    (workingDir : Place)
    (home clock : Text)
    (steps : List Step) :
    P ((initial workingDir home clock).after steps).world.loggers
      (history workingDir home clock steps) := by
  have hstore : P (initial workingDir home clock).world.loggers
      [⟨Loggers.canonical Store.loggerName, none, true⟩] :=
    hP (.unasked (Loggers.canonical Store.loggerName)) hnone
  exact holds_after hP hstore steps

end

/-- The loggers of a session are those that its history accounts for. -/
theorem records_history
    (workingDir : Place)
    (home clock : Text)
    (steps : List Step) :
    ((initial workingDir home clock).after steps).world.loggers.Records
      (history workingDir home clock steps) :=
  holds_history Making.Attaches.records (fun _ => rfl) workingDir home clock steps

/-- **Handlers are attached once.** After any steps of a session, in which loggers were made with
whatever names and log files, by callers or by command lines:

* a name that was made has a console for information and above, then a file handler for records of
  every level for each absolute path that was opened for it, in the order in which they were first
  opened; a name that was not made has nothing;
* no path occurs twice, and the paths are those of the log files with which the name was made and
  all went well;
* a logger cannot be made exactly when there is a log file that it has not got and that cannot be
  opened. A step at which this happens fails. It leaves other loggers as they were, and the logger's
  own handlers too, but for a console that a logger without handlers gets;
* a handler drops what is below its level, and a console shows everything else. -/
theorem handlers_attached_once
    (workingDir : Place)
    (home clock : Text)
    (steps : List Step) :
    let s := (initial workingDir home clock).after steps
    let made := history workingDir home clock steps
    (∀ name, (s.world.loggers.handlersOf name).map Handler.shape =
        if ∃ m ∈ made, m.name = name then
          (none, Level.info) :: (Making.opened name made).map fun path => (some path, .debug)
        else []) ∧
      (∀ name, (Making.opened name made).Nodup ∧
        ∀ path, path ∈ Making.opened name made ↔
          ∃ m ∈ made, m.name = name ∧ m.succeeded = true ∧ m.path? = some path) ∧
      (∀ name logFile, (Act.making name logFile s.world).succeeded = false ↔
        ∃ path fault, Act.logPath? logFile s.world = some path ∧
          path ∉ Making.opened (Loggers.canonical name) made ∧
          ((FileAct.openAppend path).run s.world.tree).1 = .error fault) ∧
      (∀ step m, s.making? step = some m → m.succeeded = false →
        let after := (s.step step).2.world.loggers
        (∃ failure, (s.step step).1 = .error failure) ∧
          (∀ name, name ≠ m.name → after.find? name = s.world.loggers.find? name) ∧
          (after.handlersOf m.name = s.world.loggers.handlersOf m.name ∨
            s.world.loggers.handlersOf m.name = [] ∧ after.handlersOf m.name = [.console])) ∧
      ∀ (w : World) (r : LogRecord),
        (∀ h : Handler, r.level.rank < h.level.rank → w.deliver r h = w) ∧
          (Handler.console.level.rank ≤ r.level.rank →
            w.deliver r .console = { w with console := w.console ++ r.line w.clock }) := by
  have hrecords := records_history workingDir home clock steps
  refine ⟨hrecords, ?_, ?_, ?_, ?_⟩
  · intro name
    exact ⟨Making.nodup_opened name _, fun path => Making.mem_opened_iff⟩
  · intro name logFile
    rw [Act.making_failed_iff]
    simp only [← Bool.not_eq_true, hrecords.any_isFor_iff]
  · intro step m hmaking hfailed
    have hattach := attaches_step hmaking
    exact ⟨step_of_making?_failed hmaking hfailed, fun name hne => hattach.find?_of_ne hne,
      hattach.handlersOf_of_failed hrecords hfailed⟩
  · intro w r
    exact ⟨fun h hlevel => World.deliver_of_lt hlevel w,
      fun hlevel => World.deliver_console_of_le hlevel w⟩

/-- The root logger under both of its names, with one log file in two spellings. -/
def rootSteps : List Step :=
  [.makeLogger [] (some (lit "k.log")), .makeLogger Loggers.rootName (some (lit "a/../k.log"))]

/-- A log file that is spelled in two ways is opened once, and one in a missing directory is not
opened. -/
theorem root_logger_has_one_file :
    let s := (initial [] [] []).after rootSteps
    let next := s.step (.makeLogger Loggers.rootName (some (lit "m/k.log")))
    (∃ failure, next.1 = .error failure) ∧
      next.2.world.loggers.handlersOf Loggers.rootName =
        s.world.loggers.handlersOf Loggers.rootName ∧
      (s.world.loggers.handlersOf Loggers.rootName).map Handler.shape =
        [(none, .info), (some (lit "/k.log"), .debug)] := by
  obtain ⟨hshapes, -, -, hfailing, -⟩ := handlers_attached_once [] [] [] rootSteps
  have hhistory : history [] [] [] rootSteps =
      [⟨lit "keystore", none, true⟩, ⟨lit "root", some (lit "/k.log"), true⟩,
        ⟨lit "root", some (lit "/k.log"), true⟩] := by
    with_unfolding_all rfl
  rw [hhistory] at hshapes
  have hroot : (((initial [] [] []).after rootSteps).world.loggers.handlersOf
      Loggers.rootName).map Handler.shape = [(none, .info), (some (lit "/k.log"), .debug)] :=
    hshapes Loggers.rootName
  obtain ⟨hfails, -, hsame | ⟨hnone, -⟩⟩ := hfailing
    (.makeLogger Loggers.rootName (some (lit "m/k.log"))) _ rfl (by with_unfolding_all rfl)
  · exact ⟨hfails, hsame, hroot⟩
  · cases hroot.symm.trans (congrArg (List.map Handler.shape) hnone)

end Session

end Keybox

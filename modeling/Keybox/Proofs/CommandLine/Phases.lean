import Keybox.Proofs.Log.Handlers
import Keybox.Proofs.World.Upkeep

/-!
# The phases of a run

A run of a command line has three phases: it gets the settings, it opens the log file that they
name, and it carries out the command. What becomes of the run when a phase succeeds or fails is
stated here once, for every command.

**Results.** Getting the settings changes nothing. Opening the log fails exactly when the file
cannot be opened and no handler has it open already. The result of a run is determined by the first
phase that fails, or is the code zero.
-/

namespace Keybox

namespace CommandLine

variable
  {w w₁ w₂ : World}
  {words : List Text}
  {i : Invocation}
  {source : RandomSource}
  {s : Settings}
  {failure : Failure}

/-- Lines as they are printed. -/
def printed
    (lines : List Text) : Text :=
  lines.flatMap fun t => t ++ lit "\n"

theorem run_printLines
    (lines : List Text)
    (w : World) :
    (printLines lines).run w = (.ok (), { w with output := w.output ++ printed lines }) := by
  induction lines generalizing w with
  | nil =>
      exact congrArg (fun output => (Except.ok (), { w with output := output }))
        (List.append_nil w.output).symm
  | cons t rest ih =>
      have hline : (Act.printLine t).run w =
          (.ok (), { w with output := w.output ++ t ++ lit "\n" }) := rfl
      rw [printLines, run_bind_of_ok hline, ih, printed, printed, List.flatMap_cons]
      simp only [List.append_assoc]

/-! ## Settings -/

/-- The settings in a file as a tree gives them. Getting them changes nothing. -/
theorem run_settingsIn
    (file : Text)
    (w : World) :
    (settingsIn file).run w =
      (match ((FileAct.read file).run w.tree).1 with
        | .error fault => .error (.file fault)
        | .ok content => (Settings.ofBytes content).mapError .settings, w) := by
  have hread := Act.run_files_of_same (FileAct.run_read_tree file w.tree)
  cases hfound : ((FileAct.read file).run w.tree).1 with
  | error fault =>
      rw [hfound] at hread
      exact run_bind_of_error hread _
  | ok content =>
      rw [hfound] at hread
      rw [settingsIn, run_bind_of_ok hread]
      dsimp only
      cases Settings.ofBytes content with
      | error fault =>
          rfl
      | ok s =>
          rfl

/-- The settings of an invocation as a tree gives them. -/
def settingsFound
    (i : Invocation)
    (t : FileTree) : Except Failure Settings :=
  match i.configFile with
  | none => .ok (withOptions i Settings.default)
  | some file =>
    match ((FileAct.read file).run t).1 with
    | .error fault => .error (.file fault)
    | .ok content =>
      match Settings.ofBytes content with
      | .error fault => .error (.settings fault)
      | .ok s => .ok (withOptions i s)

/-- Getting the settings changes nothing. -/
theorem run_settingsOf
    (i : Invocation)
    (w : World) :
    (settingsOf i).run w = (settingsFound i w.tree, w) := by
  rw [settingsOf, settingsFound]
  cases i.configFile with
  | none =>
      rfl
  | some file =>
      have hsettings := run_settingsIn file w
      change (withOptions i <$> settingsIn file).run w = _
      dsimp only
      cases hread : ((FileAct.read file).run w.tree).1 with
      | error fault =>
          rw [hread] at hsettings
          exact run_map_of_error hsettings _
      | ok content =>
          rw [hread] at hsettings
          dsimp only at hsettings ⊢
          cases hbytes : Settings.ofBytes content with
          | error fault =>
              rw [hbytes] at hsettings
              exact run_map_of_error hsettings _
          | ok s =>
              rw [hbytes] at hsettings
              exact run_map_of_ok hsettings _

theorem run_settingsOf_file
    {file : Text}
    {content : Bytes}
    (hfile : i.configFile = some file)
    (hread : ((FileAct.read file).run w.tree).1 = .ok content)
    (hsettings : Settings.ofBytes content = .ok s) :
    (settingsOf i).run w = (.ok (withOptions i s), w) := by
  rw [run_settingsOf, settingsFound, hfile]
  dsimp only
  rw [hread]
  dsimp only
  rw [hsettings]

/-- The settings, or why there are none, with the world as it was. -/
theorem settingsOf_cases
    (i : Invocation)
    (w : World) :
    (∃ s, (settingsOf i).run w = (.ok s, w)) ∨
      ∃ failure, (settingsOf i).run w = (.error failure, w) := by
  rw [run_settingsOf]
  cases settingsFound i w.tree with
  | ok s =>
      exact Or.inl ⟨s, rfl⟩
  | error failure =>
      exact Or.inr ⟨failure, rfl⟩

/-- Settings that cannot be had are no error of the store. -/
theorem family_of_settingsOf
    (h : (settingsOf i).run w = (.error failure, w₁)) :
    failure.family ≠ .keystore := by
  rw [run_settingsOf] at h
  replace h := (Prod.mk.inj h).1
  rw [settingsFound] at h
  split at h
  · cases h
  · split at h
    · next fault _ =>
      cases h
      cases fault <;> exact nofun
    · split at h
      · next fault _ =>
        cases h
        rcases fault with ⟨_ | ⟨_, _ | _ | _⟩⟩ | _ <;> exact nofun
      · cases h

/-! ## The log file -/

/-- Settings name a log file that the store's logger has not got open and that cannot be opened. -/
structure LogRefused
    (s : Settings)
    (w : World)
    (file : Text)
    (fault : FileFault) : Prop where
  named : logFileOf s = some file
  closed : (w.loggers.handlersOf (Loggers.canonical Store.loggerName)).any
    (Handler.isFor (Path.absolute w.tree.workingPath file)) = false
  refused : ((FileAct.openAppend (Path.absolute w.tree.workingPath file)).run w.tree).1 =
    .error fault

theorem logFileOf_ne_nil
    {file : Text}
    (h : logFileOf s = some file) :
    file ≠ [] := by
  rintro rfl
  rw [logFileOf] at h
  split at h
  · cases h
  · next hne =>
    exact hne h

theorem run_openLog_of_none
    (h : logFileOf s = none)
    (w : World) :
    (openLog s).run w = (.ok (), w) := by
  rw [openLog, h]
  rfl

theorem run_openLog
    {file : Text}
    (h : logFileOf s = some file)
    (w : World) :
    (openLog s).run w =
      let name := Loggers.canonical Store.loggerName
      let path := Path.absolute w.tree.workingPath file
      let loggers := w.loggers.attachConsole name
      if (w.loggers.handlersOf name).any (Handler.isFor path) then
        (.ok (), { w with loggers := loggers })
      else
        match (FileAct.openAppend path).run w.tree with
        | (.ok serial, t) =>
          (.ok (), { w with tree := t, loggers := loggers.attach name (.file path serial) })
        | (.error fault, t) =>
          (.error (.file fault), { w with tree := t, loggers := loggers }) := by
  rw [openLog, h]
  change (Act.makeLogger Store.loggerName (some file)).run w = _
  rw [Act.run_makeLogger, Act.logPath?_some (logFileOf_ne_nil h)]
  rfl

theorem openLog_of_refused
    {file : Text}
    {fault : FileFault}
    (h : LogRefused s w file fault) :
    ((openLog s).run w).1 = .error (.file fault) := by
  have hrefused := h.refused
  rw [run_openLog h.named]
  dsimp only
  rw [if_neg (Bool.eq_false_iff.mp h.closed)]
  rcases hrun : (FileAct.openAppend (Path.absolute w.tree.workingPath file)).run w.tree with
    ⟨r, t⟩
  rw [hrun] at hrefused
  obtain rfl : r = .error fault := hrefused
  rfl

/-- Opening the log fails for no other reason. -/
theorem logRefused_of_openLog
    (h : ((openLog s).run w).1 = .error failure) :
    ∃ file fault, LogRefused s w file fault ∧ failure = .file fault := by
  cases hfile : logFileOf s with
  | none =>
      rw [run_openLog_of_none hfile] at h
      cases h
  | some file =>
      rw [run_openLog hfile] at h
      dsimp only at h
      split at h
      · cases h
      · next hopen =>
        rcases hrun : (FileAct.openAppend (Path.absolute w.tree.workingPath file)).run w.tree with
          ⟨r, t⟩
        rw [hrun] at h
        cases r with
        | ok serial =>
            cases h
        | error fault =>
            cases h
            exact ⟨file, fault, ⟨hfile, Bool.eq_false_iff.mpr hopen, by rw [hrun]⟩, rfl⟩

/-! ## Runs -/

theorem run_of_settings_error
    (hwords : Invocation.ofWords words = .ok i)
    (hsettings : (settingsOf i).run w = (.error failure, w))
    (source : RandomSource) :
    (run words source).run w =
      if reportsInSettings failure.family then
        (.ok 1, { w with console := w.console ++ settingsErrorLine failure ++ lit "\n" })
      else (.error failure, w) := by
  rw [run, hwords]
  change (runInvocation i source).run w = _
  rw [runInvocation, run_bind, run_tryCatch_of_error (run_map_of_error hsettings some)]
  cases reportsInSettings failure.family <;> rfl

theorem run_of_log_error
    (hwords : Invocation.ofWords words = .ok i)
    (hsettings : (settingsOf i).run w = (.ok s, w))
    (hlog : (openLog s).run w = (.error failure, w₁))
    (source : RandomSource) :
    (run words source).run w = (.error failure, w₁) := by
  rw [run, hwords]
  change (runInvocation i source).run w = _
  rw [runInvocation, run_bind_of_ok (run_tryCatch_of_ok (run_map_of_ok hsettings some) _)]
  change (runWith s i source).run w = _
  rw [runWith, run_bind_of_error hlog]

/-- Once the settings are there and the log is open, a run is the carrying out of its command. -/
theorem run_eq
    (hwords : Invocation.ofWords words = .ok i)
    (hsettings : (settingsOf i).run w = (.ok s, w))
    (hlog : (openLog s).run w = (.ok (), w₁))
    (source : RandomSource) :
    (run words source).run w =
      match (carryOut s.store (networkOf i s) i source).run w₁ with
      | (.ok (), w₂) => (.ok 0, w₂)
      | (.error failure, w₂) =>
        if reportsInCommand failure.family then
          (.ok 1, { w₂ with console := w₂.console ++ commandErrorLine failure ++ lit "\n" })
        else (.error failure, w₂) := by
  rw [run, hwords]
  change (runInvocation i source).run w = _
  rw [runInvocation, run_bind_of_ok (run_tryCatch_of_ok (run_map_of_ok hsettings some) _)]
  change (runWith s i source).run w = _
  rw [runWith, run_bind_of_ok hlog, run_tryCatch, run_bind]
  rcases (carryOut s.store (networkOf i s) i source).run w₁ with ⟨r, w₂⟩
  cases r with
  | ok =>
      rfl
  | error failure =>
      dsimp only
      split <;> rfl

/-- A run leaves the world as the carrying out of its command does, but for an error line. -/
theorem world_run
    (hwords : Invocation.ofWords words = .ok i)
    (hsettings : (settingsOf i).run w = (.ok s, w))
    (hlog : (openLog s).run w = (.ok (), w₁))
    (source : RandomSource) :
    ∃ console, ((run words source).run w).2 =
      { ((carryOut s.store (networkOf i s) i source).run w₁).2 with console := console } := by
  rw [run_eq hwords hsettings hlog]
  rcases (carryOut s.store (networkOf i s) i source).run w₁ with ⟨r, w₂⟩
  cases r with
  | ok =>
      exact ⟨w₂.console, rfl⟩
  | error failure =>
      dsimp only
      split
      · exact ⟨_, rfl⟩
      · exact ⟨w₂.console, rfl⟩

end CommandLine

end Keybox

import Keybox.Proofs.CommandLine.Phases
import Keybox.Proofs.Json.Records
import Keybox.Proofs.Store.Refinement

/-!
# Exit codes and error lines

Errors on the way to the settings and errors of a command end a run with the code one, after a line
on the console that begins with `ERROR: `. Which errors these are is decided by their families, by
one list for the settings and another for the command. The log file is opened between the two, where
nothing is caught.

**Results.** For errors of the store and of the file system both lists suffice. Every such error is
reported, whatever the tree, the settings and the random source, unless it is the refusal of the log
file. That one is passed on.
-/

namespace Keybox

/-- A text of whole lines. -/
def Text.IsLines
    (t : Text) : Prop :=
  t = [] ∨ t.getLast? = some (chr '\n')

/-- An error of the store or of the file system. -/
def Failure.IsError
    (failure : Failure) : Prop :=
  failure.family = .keystore ∨ failure.family = .system

namespace World

/-- Worlds in which whole lines have been added to a console. -/
def AddsLines
    (start w : World) : Prop :=
  ∃ lines, Text.IsLines lines ∧ w.console = start.console ++ lines

variable {start w : World}

theorem addsLines_refl
    (w : World) :
    w.AddsLines w :=
  ⟨[], Or.inl rfl, (List.append_nil _).symm⟩

theorem AddsLines.line
    (h : start.AddsLines w)
    (line : Text) :
    start.AddsLines { w with console := w.console ++ (line ++ lit "\n") } := by
  obtain ⟨lines, -, heq⟩ := h
  refine ⟨lines ++ (line ++ lit "\n"), Or.inr ?_, ?_⟩
  · rw [← List.append_assoc]
    exact List.getLast?_concat
  · rw [heq, List.append_assoc]

theorem kept_addsLines
    (start : World) :
    Kept start.AddsLines where
  files := by
    intro α act _ w hw
    rw [Act.run_files]
    rcases act.run w.tree with ⟨r, t⟩
    cases r <;> exact hw
  deliver := by
    intro w hw r handler
    cases handler with
    | console =>
        rw [deliver]
        split
        · exact hw.line _
        · exact hw
    | file path serial =>
        simp only [deliver]
        split <;> exact hw
  loggers := fun hw _ => hw
  printLine := fun _ => preserves_modify fun _ hw => hw
  printError := by
    intro t
    refine preserves_modify fun w hw => ?_
    rw [List.append_assoc]
    exact hw.line t

end World

namespace CommandLine

/-- What an invocation does, with every error passed on. -/
def unguarded
    (i : Invocation)
    (source : RandomSource) : Act Unit := do
  let s ← settingsOf i
  openLog s
  carryOut s.store (networkOf i s) i source

/-- The settings of an invocation can be had, but not the log file that they name. -/
def StopsAtLog
    (i : Invocation)
    (w : World)
    (fault : FileFault) : Prop :=
  ∃ s file, (settingsOf i).run w = (.ok s, w) ∧ LogRefused s w file fault

variable
  {w w' : World}
  {words : List Text}
  {i : Invocation}
  {source : RandomSource}
  {failure : Failure}

theorem preserves_unguarded
    {P : World → Prop}
    (hP : World.Kept P)
    (i : Invocation)
    (source : RandomSource) :
    Preserves P (unguarded i source) :=
  (preserves_settingsOf hP.toKeptInUse i).bind fun s =>
    (preserves_openLog hP s).bind fun _ => preserves_carryOut hP.toKeptInUse s.store _ i source

theorem run_of_unguarded_ok
    (hwords : Invocation.ofWords words = .ok i)
    (h : (unguarded i source).run w = (.ok (), w')) :
    (run words source).run w = (.ok 0, w') := by
  rcases settingsOf_cases i w with ⟨s, hsettings⟩ | ⟨failure, hsettings⟩
  · rw [unguarded, run_bind_of_ok hsettings] at h
    obtain ⟨_, w₁, hlog, hcarry⟩ := run_bind_eq_ok_iff.mp h
    rw [run_eq hwords hsettings hlog, hcarry]
  · rw [unguarded, run_bind_of_error hsettings] at h
    cases h

theorem reportsInSettings_of_isError
    (hsettings : (settingsOf i).run w = (.error failure, w))
    (herror : failure.IsError) :
    reportsInSettings failure.family = true := by
  rcases herror with hfamily | hfamily
  · exact absurd hfamily (family_of_settingsOf hsettings)
  · rw [hfamily]
    rfl

theorem reportsInCommand_of_isError
    (herror : failure.IsError) :
    reportsInCommand failure.family = true := by
  rcases herror with hfamily | hfamily <;> rw [hfamily] <;> rfl

/-- An error is reported, or it is the refusal of the log file. -/
theorem run_of_unguarded_error
    (hwords : Invocation.ofWords words = .ok i)
    (h : (unguarded i source).run w = (.error failure, w'))
    (herror : failure.IsError) :
    (∃ line, lit "ERROR: " <+: line ∧
        (run words source).run w =
          (.ok 1, { w' with console := w'.console ++ line ++ lit "\n" })) ∨
      ∃ fault, failure = .file fault ∧ StopsAtLog i w fault ∧
        (run words source).run w = (.error failure, w') := by
  rcases settingsOf_cases i w with ⟨s, hsettings⟩ | ⟨failure', hsettings⟩
  · rw [unguarded, run_bind_of_ok hsettings] at h
    rcases hlog : (openLog s).run w with ⟨r, w₁⟩
    cases r with
    | ok =>
        rw [run_bind_of_ok hlog] at h
        refine Or.inl ⟨commandErrorLine failure, List.prefix_append _ _, ?_⟩
        rw [run_eq hwords hsettings hlog, h]
        exact if_pos (reportsInCommand_of_isError herror)
    | error failure' =>
        rw [run_bind_of_error hlog] at h
        cases h
        obtain ⟨file, fault, hrefused, rfl⟩ := logRefused_of_openLog (congrArg Prod.fst hlog)
        exact Or.inr ⟨fault, rfl, ⟨s, file, hsettings, hrefused⟩,
          run_of_log_error hwords hsettings hlog source⟩
  · rw [unguarded, run_bind_of_error hsettings] at h
    cases h
    have hline : lit "ERROR: " <+: settingsErrorLine failure :=
      ⟨lit "cannot load config: " ++ failure.message, rfl⟩
    refine Or.inl ⟨settingsErrorLine failure, hline, ?_⟩
    rw [run_of_settings_error hwords hsettings]
    exact if_pos (reportsInSettings_of_isError hsettings herror)

/-- An error that a run passes on is the refusal of the log file. -/
theorem stopsAtLog_of_run_error
    (hwords : Invocation.ofWords words = .ok i)
    (h : (run words source).run w = (.error failure, w'))
    (herror : failure.IsError) :
    ∃ fault, failure = .file fault ∧ StopsAtLog i w fault := by
  rcases settingsOf_cases i w with ⟨s, hsettings⟩ | ⟨failure', hsettings⟩
  · rcases hlog : (openLog s).run w with ⟨r, w₁⟩
    cases r with
    | ok =>
        rw [run_eq hwords hsettings hlog] at h
        split at h
        · cases h
        · split at h
          · cases h
          · next hreports =>
            cases h
            exact absurd (reportsInCommand_of_isError herror) hreports
    | error failure' =>
        rw [run_of_log_error hwords hsettings hlog] at h
        cases h
        obtain ⟨file, fault, hrefused, rfl⟩ := logRefused_of_openLog (congrArg Prod.fst hlog)
        exact ⟨fault, rfl, s, file, hsettings, hrefused⟩
  · rw [run_of_settings_error hwords hsettings] at h
    split at h
    · cases h
    · next hreports =>
      cases h
      exact absurd (reportsInSettings_of_isError hsettings herror) hreports

theorem run_of_stopsAtLog
    (hwords : Invocation.ofWords words = .ok i)
    {fault : FileFault}
    (h : StopsAtLog i w fault)
    (source : RandomSource) :
    ∃ w', (run words source).run w = (.error (.file fault), w') := by
  obtain ⟨s, file, hsettings, hrefused⟩ := h
  have hlog := openLog_of_refused hrefused
  exact ⟨_, run_of_log_error hwords hsettings (Prod.ext hlog rfl) source⟩

/-- **Errors end in the code one.** An accepted command line is run to the code zero if nothing
fails. If an error of the store or of the file system comes up, in whatever tree and for whatever
settings and random source, the run writes a line that begins with `ERROR: `, after whole lines, and
ends with the code one. The one exception is a log file that the settings name and that cannot be
opened: then, and only then, the error is passed on. -/
theorem run_reports_errors
    (hwords : Invocation.ofWords words = .ok i)
    (source : RandomSource)
    (w : World) :
    (∀ w', (unguarded i source).run w = (.ok (), w') → (run words source).run w = (.ok 0, w')) ∧
      (∀ failure w', (unguarded i source).run w = (.error failure, w') → failure.IsError →
        w.AddsLines w' ∧
          ((∃ line, lit "ERROR: " <+: line ∧
              (run words source).run w =
                (.ok 1, { w' with console := w'.console ++ line ++ lit "\n" })) ∨
            ∃ fault, failure = .file fault ∧ StopsAtLog i w fault ∧
              (run words source).run w = (.error failure, w'))) ∧
      (∀ failure w', (run words source).run w = (.error failure, w') → failure.IsError →
        ∃ fault, failure = .file fault ∧ StopsAtLog i w fault) ∧
      ∀ fault, StopsAtLog i w fault →
        ∃ w', (run words source).run w = (.error (.file fault), w') := by
  refine ⟨?_, ?_, ?_, ?_⟩
  · intro w' h
    exact run_of_unguarded_ok hwords h
  · intro failure w' h herror
    have hlines := preserves_unguarded (World.kept_addsLines w) i source w (World.addsLines_refl w)
    rw [h] at hlines
    exact ⟨hlines, run_of_unguarded_error hwords h herror⟩
  · intro failure w' h herror
    exact stopsAtLog_of_run_error hwords h herror
  · intro fault h
    exact run_of_stopsAtLog hwords h source

/-- A missing credentials file is reported. -/
theorem missing_file_is_reported :
    ∃ (line : Text) (w' : World), lit "ERROR: " <+: line ∧
      (run [lit "--base-dir", lit ".", lit "show", lit "alice"] (.seed Seed.zero)).run
          Store.emptyWorld =
        (.ok 1, { w' with console := w'.console ++ line ++ lit "\n" }) := by
  have hwords : Invocation.ofWords [lit "--base-dir", lit ".", lit "show", lit "alice"] =
      .ok ⟨none, some (lit "."), .display, lit "alice", none⟩ := by
    with_unfolding_all rfl
  obtain ⟨-, hreports, -, -⟩ := run_reports_errors hwords (.seed Seed.zero) Store.emptyWorld
  have hfails : ((unguarded ⟨none, some (lit "."), .display, lit "alice", none⟩
      (.seed Seed.zero)).run Store.emptyWorld).1 =
        .error (.file (.system .noEntry (lit "./.near-credentials/testnet/alice.json") none)) := by
    with_unfolding_all rfl
  obtain ⟨-, ⟨line, hline, hrun⟩ | ⟨fault, -, ⟨s, file, hsettings, hrefused⟩, -⟩⟩ :=
    hreports _ _ (Prod.ext hfails rfl) (Or.inr rfl)
  · exact ⟨line, _, hline, hrun⟩
  · cases hsettings
    cases hrefused.named

/-! ## A log file in a missing directory -/

/-- Settings that name a log file in a directory. -/
def logContent : Bytes :=
  Utf8.encode (lit "\x7b\"log_file\": \"logs/k.log\"\x7d")

/-- A world whose only file holds these settings, so that the directory is missing. -/
def logWorld : World :=
  { Store.emptyWorld with
    tree := ⟨[([lit "c.json"], .file 0 FileTree.plainFileMode logContent)], [], 1⟩ }

/-- The line that asks for a path under these settings. -/
def logWords : List Text :=
  [lit "--config", lit "c.json", lit "path", lit "alice"]

theorem ofBytes_logContent :
    Settings.ofBytes logContent =
      .ok { Settings.default with logFile := some (lit "logs/k.log") } :=
  eq_ok_of_toOption (by decide +kernel)

/-- The refusal of the log file is an error of the file system, and it is passed on. -/
theorem refused_log_is_not_reported :
    (∃ i, Invocation.ofWords logWords = .ok i) ∧
      (∃ w', (run logWords (.seed Seed.zero)).run logWorld =
        (.error (.file (.system .noEntry (lit "/logs/k.log") none)), w')) ∧
      ¬ ∀ words i source w failure w', Invocation.ofWords words = .ok i →
          (run words source).run w = (.error failure, w') → ¬ failure.IsError := by
  have hwords : Invocation.ofWords logWords =
      .ok ⟨some (lit "c.json"), none, .locate, lit "alice", none⟩ := by
    with_unfolding_all rfl
  have hread : ((FileAct.read (lit "c.json")).run logWorld.tree).1 = .ok logContent := by
    with_unfolding_all rfl
  have hsettings : (settingsOf ⟨some (lit "c.json"), none, .locate, lit "alice", none⟩).run
      logWorld = (.ok { Settings.default with logFile := some (lit "logs/k.log") }, logWorld) :=
    run_settingsOf_file rfl hread ofBytes_logContent
  have hstops : StopsAtLog ⟨some (lit "c.json"), none, .locate, lit "alice", none⟩ logWorld
      (.system .noEntry (lit "/logs/k.log") none) :=
    ⟨_, lit "logs/k.log", hsettings, rfl, by with_unfolding_all rfl, by with_unfolding_all rfl⟩
  obtain ⟨w', hrun⟩ := run_of_stopsAtLog hwords hstops (.seed Seed.zero)
  exact ⟨⟨_, hwords⟩, ⟨w', hrun⟩, fun hall => hall _ _ _ _ _ _ hwords hrun (Or.inr rfl)⟩

end CommandLine

end Keybox

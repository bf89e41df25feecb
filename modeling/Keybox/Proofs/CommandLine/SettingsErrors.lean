import Keybox.Proofs.CommandLine.Exit
import Keybox.Proofs.Json.LongNumbers
import Keybox.Proofs.Text.OneLine

/-!
# Settings that cannot be had

The file that the settings come from may be missing, may be no text, no document or no object, or
may have a member of the wrong type. All of this is caught where the settings are got, but for one
thing: brackets that nest too deep exhaust the reader, which is no bad value and no error of the file
system.

**Results.** A run goes on with the settings of the file, or says on one line why there are none and
ends with the code one and everything else as it was. It passes an error of the settings on only for a
document with more opening brackets than the reader has levels.
-/

namespace Keybox

/-- The error over the settings in bytes whose text has brackets that nest too deep. -/
def Failure.NestsTooDeep
    (failure : Failure)
    (content : Bytes) : Prop :=
  ∃ t bracket, Utf8.decode content = .ok t ∧
    Json.read (Settings.unifyLineEnds t) = .error (.tooDeep bracket) ∧
    failure = .settings (.unreadable (.grammar (Settings.unifyLineEnds t) (.tooDeep bracket)))

/-- A text without carriage returns has its line ends unified. -/
theorem Settings.unifyLineEnds_of_notMem
    {t : Text}
    (h : chr '\r' ∉ t) :
    Settings.unifyLineEnds t = t := by
  rw [Settings.unifyLineEnds]
  induction t with
  | nil =>
      rfl
  | cons c t ih =>
      rw [List.mem_cons, not_or] at h
      rw [Settings.unifyLineEndsAfter, if_neg (Ne.symm h.1), if_neg (by simp), ih h.2]

namespace CommandLine

variable
  {w w' : World}
  {words : List Text}
  {i : Invocation}
  {source : RandomSource}
  {file : Text}
  {s : Settings}
  {failure : Failure}

theorem settingsIn_world
    (file : Text)
    (w : World) :
    ((settingsIn file).run w).2 = w := by
  rw [run_settingsIn]

/-- Why there are no settings in a file: it cannot be read, or its content is at fault. -/
theorem settingsIn_error_cases
    (h : ((settingsIn file).run w).1 = .error failure) :
    (∃ fault, ((FileAct.read file).run w.tree).1 = .error fault ∧ failure = .file fault) ∨
      ∃ content fault, ((FileAct.read file).run w.tree).1 = .ok content ∧
        Settings.ofBytes content = .error fault ∧ failure = .settings fault := by
  rw [run_settingsIn] at h
  dsimp only at h
  split at h
  · next fault hread =>
    cases h
    exact .inl ⟨fault, hread, rfl⟩
  · next content hread =>
    obtain ⟨fault, hfault, rfl⟩ := mapError_eq_error_iff.mp h
    exact .inr ⟨content, fault, hread, hfault, rfl⟩

/-- A file that cannot be read is refused for its name or by the file system. -/
theorem reportsInSettings_of_read
    {t : FileTree}
    {fault : FileFault}
    (h : ((FileAct.read file).run t).1 = .error fault) :
    reportsInSettings (Failure.file fault).family = true := by
  cases hcheck : FileFault.checkPath file with
  | error refused =>
      rw [FileAct.read, FileAct.run_onPath_of_refused hcheck] at h
      cases h
      rw [FileFault.checkPath] at hcheck
      split at hcheck
      · cases hcheck
        rfl
      · split at hcheck
        · cases hcheck
          rfl
        · cases hcheck
  | ok =>
      rw [FileAct.run_read_fst, hcheck] at h
      obtain ⟨errno, -, rfl⟩ := mapError_eq_error_iff.mp h
      rfl

/-- Every fault of a content is reported but that of brackets that nest too deep. -/
theorem reportsInSettings_of_ofBytes
    {content : Bytes}
    {fault : Settings.ContentFault}
    (h : Settings.ofBytes content = .error fault) :
    reportsInSettings (Failure.settings fault).family = true ∨
      (Failure.settings fault).NestsTooDeep content := by
  rw [Settings.ofBytes] at h
  split at h
  · cases h
    exact .inl rfl
  · next t htext =>
    split at h
    · next f hread =>
      cases h
      cases f with
      | malformed issue offset =>
          exact .inl rfl
      | tooDeep bracket =>
          exact .inr ⟨t, bracket, htext, hread, rfl⟩
      | tooLong n =>
          exact .inl rfl
    · obtain ⟨invalid, -, rfl⟩ := mapError_eq_error_iff.mp h
      exact .inl rfl

/-- An error of the settings in a file is reported, or brackets in it nest too deep. -/
theorem reportsInSettings_of_settingsIn
    (h : ((settingsIn file).run w).1 = .error failure) :
    reportsInSettings failure.family = true ∨
      ∃ content, ((FileAct.read file).run w.tree).1 = .ok content ∧
        failure.NestsTooDeep content := by
  rcases settingsIn_error_cases h with ⟨fault, hread, rfl⟩ | ⟨content, fault, hread, hfault, rfl⟩
  · exact .inl (reportsInSettings_of_read hread)
  · exact (reportsInSettings_of_ofBytes hfault).imp_right fun hdeep => ⟨content, hread, hdeep⟩

theorem not_reportsInSettings_of_nestsTooDeep
    {content : Bytes}
    (h : failure.NestsTooDeep content) :
    reportsInSettings failure.family = false := by
  obtain ⟨t, bracket, -, -, rfl⟩ := h
  rfl

/-- The line about settings that a file does not have is one line. -/
theorem oneLine_of_settingsIn
    (h : ((settingsIn file).run w).1 = .error failure) :
    (settingsErrorLine failure).OneLine := by
  refine Text.oneLine_append_iff.mpr ⟨Text.oneLine_lit, ?_⟩
  rcases settingsIn_error_cases h with ⟨fault, -, rfl⟩ | ⟨content, fault, -, hfault, rfl⟩
  · exact fault.oneLine_message
  · exact Settings.oneLine_of_ofBytes hfault

theorem run_settingsOf_of_settingsIn
    (hfile : i.configFile = some file)
    (h : ((settingsIn file).run w).1 = .error failure) :
    (settingsOf i).run w = (.error failure, w) := by
  have hrun : (settingsIn file).run w = (.error failure, w) :=
    Prod.ext h (settingsIn_world file w)
  rw [settingsOf, hfile]
  exact run_map_of_error hrun _

/-- **Settings are had or their lack is reported.** A run under the settings of a file goes on with
them, under the options of the command line. If there are none, for whatever reason but one, it
writes one line about it and ends with the code one, and all else is as it was. The one reason is
brackets that nest too deep: then, and only then, an error of the settings is passed on, and the
file's text has more opening brackets than the reader has levels. -/
theorem settings_are_had_or_reported
    (hwords : Invocation.ofWords words = .ok i)
    (hfile : i.configFile = some file)
    (source : RandomSource)
    (w : World) :
    (∀ s, ((settingsIn file).run w).1 = .ok s →
        (run words source).run w = (runWith (withOptions i s) i source).run w) ∧
      (∀ failure, ((settingsIn file).run w).1 = .error failure →
        (∀ content, ((FileAct.read file).run w.tree).1 = .ok content →
          ¬ failure.NestsTooDeep content) →
        ∃ line : Text, lit "ERROR: cannot load config: " <+: line ∧ line.OneLine ∧
          (run words source).run w =
            (.ok 1, { w with console := w.console ++ line ++ lit "\n" })) ∧
      ∀ failure passed w', ((settingsIn file).run w).1 = .error failure →
        (run words source).run w = (.error passed, w') →
        passed = failure ∧ w' = w ∧
          ∃ content t, ((FileAct.read file).run w.tree).1 = .ok content ∧
            failure.NestsTooDeep content ∧ Utf8.decode content = .ok t ∧
            Json.depthLimit < (Settings.unifyLineEnds t).countP Json.opensBracket := by
  refine ⟨?_, ?_, ?_⟩
  · intro s h
    have hrun : (settingsIn file).run w = (.ok s, w) :=
      Prod.ext h (settingsIn_world file w)
    have hsettings : (settingsOf i).run w = (.ok (withOptions i s), w) := by
      rw [settingsOf, hfile]
      exact run_map_of_ok hrun _
    rw [run, hwords]
    change (runInvocation i source).run w = _
    rw [runInvocation, run_bind_of_ok (run_tryCatch_of_ok (run_map_of_ok hsettings some) _)]
  · intro failure h hshallow
    have hreports : reportsInSettings failure.family = true := by
      rcases reportsInSettings_of_settingsIn h with hreports | ⟨content, hread, hdeep⟩
      · exact hreports
      · exact absurd hdeep (hshallow content hread)
    refine ⟨settingsErrorLine failure, List.prefix_append _ _, oneLine_of_settingsIn h, ?_⟩
    rw [run_of_settings_error hwords (run_settingsOf_of_settingsIn hfile h), if_pos hreports]
  · intro failure passed w' h hrun
    rw [run_of_settings_error hwords (run_settingsOf_of_settingsIn hfile h)] at hrun
    rcases reportsInSettings_of_settingsIn h with hreports | ⟨content, hread, hdeep⟩
    · rw [if_pos hreports] at hrun
      cases hrun
    · rw [if_neg (Bool.eq_false_iff.mp (not_reportsInSettings_of_nestsTooDeep hdeep))] at hrun
      cases hrun
      obtain ⟨t, bracket, htext, hjson, hfailure⟩ := hdeep
      exact ⟨rfl, rfl, content, t, hread, ⟨t, bracket, htext, hjson, hfailure⟩, htext,
        Json.depthLimit_lt_of_read hjson⟩

/-! ## Two unusable files -/

/-- A world whose only file holds some settings. -/
def settingsWorld
    (content : Bytes) : World :=
  { Store.emptyWorld with
    tree := ⟨[([lit "c.json"], .file 0 FileTree.plainFileMode content)], [], 1⟩ }

/-- The line that asks for a path under the settings of the file. -/
def settingsWords : List Text :=
  [lit "--config", lit "c.json", lit "path", lit "alice"]

theorem ofWords_settingsWords :
    Invocation.ofWords settingsWords =
      .ok ⟨some (lit "c.json"), none, .locate, lit "alice", none⟩ := by
  with_unfolding_all rfl

theorem read_settingsWorld
    (content : Bytes) :
    ((FileAct.read (lit "c.json")).run (settingsWorld content).tree).1 = .ok content := by
  with_unfolding_all rfl

/-- Settings whose flag is a text. -/
def flagContent : Bytes :=
  Utf8.encode (lit "\x7b\"atomic_write\": \"maybe\"\x7d")

theorem ofBytes_flagContent :
    ∃ fault, Settings.ofBytes flagContent = .error (.invalid fault) := by
  have hread : (match Settings.ofBytes flagContent with
      | .error (.invalid _) => true
      | _ => false) = true := by
    decide +kernel
  split at hread
  · next fault hfault =>
    exact ⟨fault, hfault⟩
  · cases hread

/-- A flag that is a text is reported. -/
theorem text_for_flag_is_reported :
    ∃ line : Text, lit "ERROR: cannot load config: " <+: line ∧ line.OneLine ∧
      (run settingsWords (.seed Seed.zero)).run (settingsWorld flagContent) =
        (.ok 1, { settingsWorld flagContent with
          console := (settingsWorld flagContent).console ++ line ++ lit "\n" }) := by
  obtain ⟨-, hreports, -⟩ := settings_are_had_or_reported ofWords_settingsWords rfl
    (.seed Seed.zero) (settingsWorld flagContent)
  obtain ⟨fault, hfault⟩ := ofBytes_flagContent
  have hfails : ((settingsIn (lit "c.json")).run (settingsWorld flagContent)).1 =
      .error (.settings (.invalid fault)) := by
    rw [run_settingsIn, read_settingsWorld]
    dsimp only
    rw [hfault]
    rfl
  refine hreports _ hfails ?_
  rintro content - ⟨t, bracket, -, -, hfailure⟩
  cases hfailure

/-- Settings that are nothing but opening brackets. -/
def bracketsContent : Bytes :=
  Utf8.encode (List.replicate 3000 (chr '['))

/-- Brackets that nest too deep are not reported: the error is passed on. -/
theorem brackets_are_not_reported :
    (∃ failure, failure.NestsTooDeep bracketsContent ∧
        (run settingsWords (.seed Seed.zero)).run (settingsWorld bracketsContent) =
          (.error failure, settingsWorld bracketsContent)) ∧
      ¬ ∀ words i file source w failure passed w', Invocation.ofWords words = .ok i →
          i.configFile = some file → ((settingsIn file).run w).1 = .error failure →
          (run words source).run w ≠ (.error passed, w') := by
  have htext : Utf8.decode bracketsContent = .ok (List.replicate 3000 (chr '[')) :=
    Utf8.decode_encode fun c hc => by
      rw [List.eq_of_mem_replicate hc]
      decide
  have hlines : Settings.unifyLineEnds (List.replicate 3000 (chr '[')) =
      List.replicate 3000 (chr '[') :=
    Settings.unifyLineEnds_of_notMem fun hmem =>
      absurd (List.eq_of_mem_replicate hmem) (by decide)
  have hjson : Json.read (List.replicate 3000 (chr '[')) = .error (.tooDeep .array) :=
    Json.read_brackets (by decide)
  have hfault : Settings.ofBytes bracketsContent =
      .error (.unreadable (.grammar (List.replicate 3000 (chr '[')) (.tooDeep .array))) := by
    rw [Settings.ofBytes, htext]
    dsimp only
    rw [hlines, hjson]
  have hdeep : (Failure.settings (.unreadable (.grammar (List.replicate 3000 (chr '['))
      (.tooDeep .array)))).NestsTooDeep bracketsContent :=
    ⟨_, .array, htext, by rw [hlines, hjson], by rw [hlines]⟩
  have hfails : ((settingsIn (lit "c.json")).run (settingsWorld bracketsContent)).1 =
      .error (.settings (.unreadable (.grammar (List.replicate 3000 (chr '['))
        (.tooDeep .array)))) := by
    rw [run_settingsIn, read_settingsWorld]
    dsimp only
    rw [hfault]
    rfl
  have hrun := run_of_settings_error ofWords_settingsWords
    (run_settingsOf_of_settingsIn rfl hfails) (.seed Seed.zero)
  rw [if_neg (Bool.eq_false_iff.mp (not_reportsInSettings_of_nestsTooDeep hdeep))] at hrun
  exact ⟨⟨_, hdeep, hrun⟩, fun hall => hall _ _ _ _ _ _ _ _ ofWords_settingsWords rfl hfails hrun⟩

end CommandLine

end Keybox

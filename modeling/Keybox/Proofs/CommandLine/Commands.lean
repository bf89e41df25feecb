import Keybox.Proofs.CommandLine.Phases
import Keybox.Proofs.Session
import Keybox.Proofs.Store.WrittenFile

/-!
# The three commands agree

Three runs with the same options: one writes a new pair, one prints the path of the account's file
and one reads the file again. They find the settings for themselves, the home directory too, and the
first of them changes the tree that the others start from.

**Results.** If the first run is done and the configuration file still holds what it held, the
second prints the path that the first printed. The path leads to a file for its owner alone, and the
third run prints the account and the public key that the first printed. This holds of all options
and trees, unless an atomic write replaces a link that the path itself goes through. In that case
the third run reports that the path leads through a file.
-/

namespace Keybox

namespace World

/-- Worlds with the same files, the same home and the same loggers, whatever the time and whatever
was printed. -/
structure Matches
    (w v : World) : Prop where
  tree : v.tree = w.tree
  home : v.home = w.home
  loggers : v.loggers = w.loggers

/-- Logging changes at most the files and the console. -/
theorem log_frame
    (w : World)
    (r : LogRecord) :
    (w.log r).home = w.home ∧ (w.log r).loggers = w.loggers ∧ (w.log r).output = w.output := by
  rw [log]
  generalize w.loggers.handlersFor r.name = handlers
  induction handlers generalizing w with
  | nil =>
      exact ⟨rfl, rfl, rfl⟩
  | cons handler rest ih =>
      have hfirst : (w.deliver r handler).home = w.home ∧
          (w.deliver r handler).loggers = w.loggers ∧
          (w.deliver r handler).output = w.output := by
        cases handler with
        | console =>
            rw [deliver]
            split <;> exact ⟨rfl, rfl, rfl⟩
        | file path serial =>
            simp only [deliver]
            split <;> exact ⟨rfl, rfl, rfl⟩
      obtain ⟨hhome, hloggers, houtput⟩ := ih (w.deliver r handler)
      exact ⟨hhome.trans hfirst.1, hloggers.trans hfirst.2.1, houtput.trans hfirst.2.2⟩

/-- A console shows no record for debugging. -/
theorem log_debug_of_console
    (w : World)
    {r : LogRecord}
    (hlevel : r.level = .debug)
    (h : ∀ handler ∈ w.loggers.handlersFor r.name, handler = .console) :
    w.log r = w := by
  rw [log]
  generalize w.loggers.handlersFor r.name = handlers at h
  induction handlers with
  | nil =>
      rfl
  | cons handler rest ih =>
      obtain rfl := h handler List.mem_cons_self
      have hfirst : w.deliver r .console = w := by
        rw [deliver, hlevel]
        rfl
      rw [List.foldl_cons, hfirst]
      exact ih fun other hother => h other (List.mem_cons_of_mem _ hother)

end World

namespace Store

variable
  {w v w' : World}
  {s : Store}
  {p : KeyPair}
  {network account path : Text}

/-- The path of an account's file hangs on the home directory's name only. -/
theorem run_pathFor_of_home
    (hhome : v.home = w.home)
    (h : (s.pathFor network account).run w = (.ok path, w)) :
    (s.pathFor network account).run v = (.ok path, v) := by
  rw [pathFor, run_bind_eq_ok_iff] at h
  obtain ⟨dir, w', hbase, hpath⟩ := h
  have hdir : s.base.run v = (.ok dir, v) := by
    rw [base] at hbase ⊢
    split at hbase
    · cases hbase
      rfl
    · rw [homeDir, run_bind_of_ok (run_get w)] at hbase
      rw [homeDir, run_bind_of_ok (run_get v), hhome]
      split at hbase
      · cases hbase
        rfl
      · cases hbase
  rw [pathFor, run_bind_of_ok hdir]
  cases hpath
  rfl

/-- A pair that was written changed nothing but the files and the console. -/
theorem writePair_frame
    {atomic : Bool}
    {r : Text}
    (h : (writePair p path atomic).run w = (.ok r, w')) :
    w'.home = w.home ∧ w'.loggers = w.loggers ∧ w'.output = w.output := by
  obtain ⟨_, w₁, hfiles, hlog⟩ := run_bind_eq_ok_iff.mp h
  obtain ⟨t, -, rfl⟩ := Act.run_files_eq_ok_iff.mp hfiles
  obtain ⟨-, rfl⟩ := Prod.mk.inj hlog
  exact World.log_frame { w with tree := t } _

end Store

namespace CommandLine

open Store

variable
  {w v w' w₁ : World}
  {words : List Text}
  {i : Invocation}
  {s : Settings}
  {source : RandomSource}
  {path : Text}

/-- The settings are the same where the configuration file holds the same. -/
theorem settingsFound_congr
    {t t' : FileTree}
    (hconfig : ∀ file, i.configFile = some file → t'.contentAt file = t.contentAt file) :
    settingsFound i t' = settingsFound i t := by
  rw [settingsFound, settingsFound]
  cases hfile : i.configFile with
  | none =>
      rfl
  | some file =>
      dsimp only
      rw [FileAct.run_read_fst, FileAct.run_read_fst, hconfig file hfile]

/-- A run that ends with the code zero got its settings, opened its log and carried out its
command. -/
theorem exists_carryOut_of_run
    (hwords : Invocation.ofWords words = .ok i)
    (h : (run words source).run w = (.ok 0, w')) :
    ∃ s w₁, (settingsOf i).run w = (.ok s, w) ∧ (openLog s).run w = (.ok (), w₁) ∧
      (carryOut s.store (networkOf i s) i source).run w₁ = (.ok (), w') := by
  rcases settingsOf_cases i w with ⟨s, hsettings⟩ | ⟨failure, hsettings⟩
  · rcases hlog : (openLog s).run w with ⟨r, w₁⟩
    cases r with
    | ok =>
        rw [run_eq hwords hsettings hlog] at h
        refine ⟨s, w₁, hsettings, hlog, ?_⟩
        split at h
        · next hcarry =>
          cases h
          exact hcarry
        · split at h <;> cases h
    | error failure =>
        rw [run_of_log_error hwords hsettings hlog] at h
        cases h
  · rw [run_of_settings_error hwords hsettings] at h
    split at h <;> cases h

/-- Generating a pair from a seed is writing it and printing its lines. -/
theorem run_generate
    (store : Store)
    (network : Text)
    (hcommand : i.command = .generate)
    (seed : Seed)
    (w : World) :
    (carryOut store network i (.seed seed)).run w =
      (do
        let path ← store.write (KeyPair.ofSeed seed i.account) network
        printLines (generatedLines (KeyPair.ofSeed seed i.account) path)).run w := by
  rw [carryOut, hcommand]
  have hpair : ExceptT.run (Act.ofExcept .random (KeyPair.generate (.seed seed) i.account)) w =
      (.ok (KeyPair.ofSeed seed i.account), w) := rfl
  dsimp only
  rw [run_bind_of_ok hpair]

theorem run_generate_of_ok
    {store : Store}
    {network : Text}
    {seed : Seed}
    (hcommand : i.command = .generate)
    (h : (store.write (KeyPair.ofSeed seed i.account) network).run w = (.ok path, w₁)) :
    (carryOut store network i (.seed seed)).run w =
      (.ok (), { w₁ with
        output := w₁.output ++
          printed (generatedLines (KeyPair.ofSeed seed i.account) path) }) := by
  rw [run_generate store network hcommand, run_bind_of_ok h, run_printLines]

theorem run_generate_of_error
    {store : Store}
    {network : Text}
    {seed : Seed}
    {failure : Failure}
    (hcommand : i.command = .generate)
    (h : (store.write (KeyPair.ofSeed seed i.account) network).run w = (.error failure, w₁)) :
    (carryOut store network i (.seed seed)).run w = (.error failure, w₁) := by
  rw [run_generate store network hcommand, run_bind_of_error h]

theorem run_locate
    (hwords : Invocation.ofWords words = .ok i)
    (hcommand : i.command = .locate)
    (hsettings : (settingsOf i).run w = (.ok s, w))
    (hlog : logFileOf s = none)
    (hpath : (s.store.pathFor (networkOf i s) i.account).run w = (.ok path, w))
    (source : RandomSource) :
    (run words source).run w = (.ok 0, { w with output := w.output ++ printed [path] }) := by
  rw [run_eq hwords hsettings (run_openLog_of_none hlog w), carryOut, hcommand]
  dsimp only
  rw [run_bind_of_ok hpath, run_printLines]

/-- A run that shows a pair which can be read prints its account and its public key. -/
theorem run_display
    {p : KeyPair}
    (hwords : Invocation.ofWords words = .ok i)
    (hcommand : i.command = .display)
    (hsettings : (settingsOf i).run w = (.ok s, w))
    (hlog : logFileOf s = none)
    (hconsole : ∀ handler ∈ w.loggers.handlersFor (Loggers.canonical loggerName),
      handler = .console)
    (hpath : (s.store.pathFor (networkOf i s) i.account).run w = (.ok path, w))
    {members : Members}
    (hrecord : w.HoldsRecord path members)
    (hcheck : KeyPair.check members i.account = .ok p)
    (source : RandomSource) :
    (run words source).run w =
      (.ok 0, { w with output := w.output ++ printed (displayedLines p) }) := by
  have hload : (s.store.load (networkOf i s) i.account).run w = (.ok p, w) := by
    rw [load_run hpath, readPair_of_ok hrecord hcheck, World.log_debug_of_console w rfl hconsole]
  exact run_display_of_ok source hwords hcommand hsettings (run_openLog_of_none hlog w) hload

/-- The lines of the three commands, with the same options and for the same account. -/
def SameOptions
    (lines : Command → List Text)
    (i : Invocation) : Prop :=
  ∀ c, Invocation.ofWords (lines c) = .ok { i with command := c }

/-- What a run that generated a pair found and left behind. -/
structure Generated
    (i : Invocation)
    (s : Settings)
    (p : KeyPair)
    (path : Text)
    (w w' : World) : Prop where
  settings : (settingsOf i).run w = (.ok s, w)
  locates : (s.store.pathFor (networkOf i s) i.account).run w = (.ok path, w)
  fileName : FileFault.checkPath path = .ok ()
  ready : (s.store.readyTree path w.tree).WellFormed
  written : ∃ place serial, (s.store.readyTree path w.tree).Takes path s.atomicWrite place ∧
    (s.store.readyTree path w.tree).Becomes place (.file serial fileMode (contentOf p)) w'.tree
  home : w'.home = w.home
  loggers : w'.loggers = w.loggers
  output : w'.output = w.output ++ printed (generatedLines p path)

theorem generated_of_run
    {seed : Seed}
    (hwords : Invocation.ofWords words = .ok i)
    (hcommand : i.command = .generate)
    (hwf : w.tree.WellFormed)
    (hconsole : ∀ handler ∈ w.loggers.handlersFor (Loggers.canonical loggerName),
      handler = .console)
    (hlog : ∀ s, (settingsOf i).run w = (.ok s, w) → logFileOf s = none)
    (h : (run words (.seed seed)).run w = (.ok 0, w')) :
    ∃ s path, Generated i s (KeyPair.ofSeed seed i.account) path w w' := by
  obtain ⟨s, w₀, hsettings, hopen, hcarry⟩ := exists_carryOut_of_run hwords h
  rw [run_openLog_of_none (hlog s hsettings)] at hopen
  obtain rfl : w = w₀ := (Prod.mk.inj hopen).2
  rw [run_generate _ _ hcommand, run_bind_eq_ok_iff] at hcarry
  obtain ⟨path, w₂, hwrite, hprint⟩ := hcarry
  rw [run_printLines] at hprint
  obtain ⟨-, rfl⟩ := Prod.mk.inj hprint
  obtain ⟨path', hpath, hpair⟩ := writePair_of_write hwrite
  have hready := wellFormed_readyTree hwf s.store path'
  have hsame := writePair_eq_ok (w := { w with tree := s.store.readyTree path' w.tree })
    hconsole hpair
  obtain ⟨rfl, hfile⟩ := hsame
  obtain ⟨hhome, hloggers, houtput⟩ := writePair_frame hpair
  obtain ⟨hcheck, place, serial, htakes, hb, -⟩ := writeFile_eq_ok hready hfile
  refine ⟨s, path, hsettings, hpath, hcheck, hready, ⟨place, serial, htakes, hb⟩, hhome,
    hloggers, ?_⟩
  dsimp only
  rw [houtput]

variable
  {p : KeyPair}

/-- A run with the same options in a matching world finds the same settings and the same path. -/
theorem Generated.found
    (h : Generated i s p path w w₁)
    (hconfig : ∀ file, i.configFile = some file → w₁.tree.contentAt file = w.tree.contentAt file)
    (hmatch : w₁.Matches v) :
    (settingsOf i).run v = (.ok s, v) ∧
      (s.store.pathFor (networkOf i s) i.account).run v = (.ok path, v) := by
  have hfound : settingsFound i v.tree = settingsFound i w.tree := by
    rw [hmatch.tree]
    exact settingsFound_congr hconfig
  constructor
  · have hsettings := (Prod.mk.inj ((run_settingsOf i w).symm.trans h.settings)).1
    rw [run_settingsOf, hfound, hsettings]
  · exact run_pathFor_of_home (hmatch.home.trans h.home) h.locates

/-- The path leads to the file of the pair, if it keeps its way under an atomic write. -/
theorem Generated.resolve
    (h : Generated i s p path w w₁)
    (hkeeps : s.atomicWrite = true → (s.store.readyTree path w.tree).KeepsWay path) :
    ∃ place serial,
      w₁.tree.resolve .reading path = .ok (.entry place (.file serial fileMode (contentOf p))) := by
  obtain ⟨place, serial, htakes, hb⟩ := h.written
  exact ⟨place, serial, htakes.resolve_becomes h.ready hkeeps hb⟩

/-- If it does not, it leads through a file. -/
theorem Generated.resolve_of_not_keepsWay
    (h : Generated i s p path w w₁)
    (hatomic : s.atomicWrite = true)
    (hkeeps : ¬ (s.store.readyTree path w.tree).KeepsWay path) :
    w₁.tree.resolve .reading path = .error .notDirectory := by
  obtain ⟨place, serial, htakes, hb⟩ := h.written
  rw [hatomic] at htakes
  cases htakes with
  | atomic hadmits =>
      exact hadmits.resolve_of_not_keepsWay hkeeps hb

theorem check_record_ofSeed
    (seed : Seed)
    (account : Text) :
    KeyPair.check (KeyPair.ofSeed seed account).record.members account =
      .ok (KeyPair.ofSeed seed account) :=
  mapError_eq_ok_iff.mp (KeyPair.decode_record_ofSeedIn .privateKey seed account none)

/-- **The three commands agree.** When a run has generated a pair and the configuration file, if one
is given, holds what it held, the run that locates the account's file with the same options prints
the path that was printed, in every world with the same files, home and loggers. Unless an atomic
write took the path off its way, the path leads to a file for its owner alone, and the run that
displays the account with the same options prints the account and the public key that was printed.
If it did, that run reports that the path leads through a file. -/
theorem commands_agree
    {lines : Command → List Text}
    {seed : Seed}
    (hlines : SameOptions lines i)
    (hwf : w.tree.WellFormed)
    (haccount : i.account.Unpaired)
    (hconsole : ∀ handler ∈ w.loggers.handlersFor (Loggers.canonical loggerName),
      handler = .console)
    (hlog : ∀ s, (settingsOf i).run w = (.ok s, w) → logFileOf s = none)
    (hrun : (run (lines .generate) (.seed seed)).run w = (.ok 0, w₁))
    (hconfig : ∀ file, i.configFile = some file → w₁.tree.contentAt file = w.tree.contentAt file) :
    ∃ s path, (settingsOf i).run w = (.ok s, w) ∧
      (s.store.pathFor (networkOf i s) i.account).run w = (.ok path, w) ∧
      w₁.output = w.output ++ printed
        [lit "Key pair for " ++ i.account ++ lit " written to " ++ path,
          lit "public_key: " ++ (KeyPair.ofSeed seed i.account).publicKey] ∧
      (∀ v source, w₁.Matches v → (run (lines .locate) source).run v =
        (.ok 0, { v with output := v.output ++ printed [path] })) ∧
      ((s.atomicWrite = true → (s.store.readyTree path w.tree).KeepsWay path) →
        (∃ place serial, w₁.tree.resolve .reading path =
          .ok (.entry place (.file serial 0o600 (contentOf (KeyPair.ofSeed seed i.account))))) ∧
        ∀ v source, w₁.Matches v → (run (lines .display) source).run v =
          (.ok 0, { v with
            output := v.output ++ printed [lit "account_id: " ++ i.account,
              lit "public_key: " ++ (KeyPair.ofSeed seed i.account).publicKey] })) ∧
      (s.atomicWrite = true → ¬ (s.store.readyTree path w.tree).KeepsWay path →
        ∀ v source, w₁.Matches v → (run (lines .display) source).run v =
          (.ok 1, { v with
            console := v.console ++
              commandErrorLine (.file (.system .notDirectory path none)) ++ lit "\n" })) := by
  obtain ⟨s, path, hgenerated⟩ :=
    generated_of_run (hlines .generate) rfl hwf hconsole hlog hrun
  have hnone := hlog s hgenerated.settings
  have hfound := fun v hmatch => hgenerated.found hconfig (v := v) hmatch
  refine ⟨s, path, hgenerated.settings, hgenerated.locates, hgenerated.output, ?_, ?_, ?_⟩
  · intro v source hmatch
    obtain ⟨hsettings, hpath⟩ := hfound v hmatch
    exact run_locate (hlines .locate) rfl hsettings hnone hpath source
  · intro hkeeps
    obtain ⟨place, serial, hresolve⟩ := hgenerated.resolve hkeeps
    refine ⟨⟨place, serial, hresolve⟩, ?_⟩
    intro v source hmatch
    obtain ⟨hsettings, hpath⟩ := hfound v hmatch
    have hunpaired := (accepted_ofSeedIn .privateKey seed i.account).unpaired haccount
    rw [← hmatch.tree] at hresolve
    have hrecord := holdsRecord_of_resolve hunpaired hgenerated.fileName hresolve
    rw [← hgenerated.loggers, ← hmatch.loggers] at hconsole
    exact run_display (hlines .display) rfl hsettings hnone hconsole hpath hrecord
      (check_record_ofSeed seed i.account) source
  · intro hatomic hkeeps v source hmatch
    obtain ⟨hsettings, hpath⟩ := hfound v hmatch
    have hresolve := hgenerated.resolve_of_not_keepsWay hatomic hkeeps
    rw [← hmatch.tree] at hresolve
    have hload := (load_run hpath).trans
      (run_readPair_of_resolve_error hgenerated.fileName hresolve i.account)
    exact run_display_of_error (hlines .display) rfl hsettings (run_openLog_of_none hnone v) rfl
      hload

/-! ## A file in a link's place -/

/-- Settings for atomic writes under the working directory. -/
def atomicContent : Bytes :=
  Utf8.encode (lit "\x7b\"base_dir\": \".\", \"atomic_write\": true\x7d")

/-- A world with these settings in a file, in which two links lead to the directory that they are
in: one with the name of the store's directory, one with the name of an account's file. -/
def linkedWorld : World :=
  ((Session.initial [] [] (lit "12:00")).after
    [.makeLink (lit ".near-credentials") (lit "."), .makeLink (lit "alice.json") (lit "."),
      .putFile (lit "c.json") atomicContent FileTree.plainFileMode]).world

/-- The lines of the commands under these settings, in a network. -/
def linkedLines
    (network : Text)
    (c : Command) : List Text :=
  [lit "--config", lit "c.json", c.word, lit "alice", lit "--network", network]

theorem wellFormed_linkedWorld :
    linkedWorld.tree.WellFormed :=
  Session.wellFormed_after (by simp) _ _ _

theorem linkedWorld_console :
    ∀ handler ∈ linkedWorld.loggers.handlersFor (Loggers.canonical loggerName),
      handler = .console :=
  site_emptyWorld.console

/-- The invocation of these lines that writes a pair. -/
def linkedInvocation
    (network : Text) : Invocation :=
  ⟨some (lit "c.json"), none, .generate, lit "alice", some network⟩

theorem sameOptions_linkedLines :
    SameOptions (linkedLines (lit ".")) (linkedInvocation (lit ".")) ∧
      SameOptions (linkedLines (lit "alice.json")) (linkedInvocation (lit "alice.json")) := by
  constructor <;> intro c <;> cases c <;> with_unfolding_all rfl

theorem run_settingsOf_linked
    (network : Text) :
    (settingsOf (linkedInvocation network)).run linkedWorld =
      (.ok ⟨some (lit "."), lit "testnet", true, false, none⟩, linkedWorld) := by
  have hread : ((FileAct.read (lit "c.json")).run linkedWorld.tree).1 = .ok atomicContent :=
    eq_ok_of_toOption (by decide +kernel)
  have hsettings : Settings.ofBytes atomicContent =
      .ok ⟨some (lit "."), lit "testnet", true, false, none⟩ :=
    eq_ok_of_toOption (by decide +kernel)
  exact run_settingsOf_file rfl hread hsettings

/-- A pair is generated in either network, and the settings stay as they are. -/
theorem generate_in_linkedWorld
    {network : Text}
    (hnetwork : network = lit "." ∨ network = lit "alice.json") :
    ∃ w₁, (run (linkedLines network .generate) (.seed Seed.zero)).run linkedWorld = (.ok 0, w₁) ∧
      w₁.tree.contentAt (lit "c.json") = linkedWorld.tree.contentAt (lit "c.json") := by
  have hdone : ((run (linkedLines network .generate) (.seed Seed.zero)).run linkedWorld).1 =
      .ok 0 := by
    rcases hnetwork with rfl | rfl <;> exact eq_ok_of_toOption (by decide +kernel)
  have hafter : ((run (linkedLines network .generate) (.seed Seed.zero)).run
      linkedWorld).2.tree.contentAt (lit "c.json") = .ok atomicContent := by
    rcases hnetwork with rfl | rfl <;> exact eq_ok_of_toOption (by decide +kernel)
  have hbefore : linkedWorld.tree.contentAt (lit "c.json") = .ok atomicContent :=
    eq_ok_of_toOption (by decide +kernel)
  exact ⟨_, Prod.ext hdone rfl, hafter.trans hbefore.symm⟩

/-- The settings and the paths of the two networks. -/
theorem pathFor_linked
    (network : Text) :
    ((Settings.store ⟨some (lit "."), lit "testnet", true, false, none⟩).pathFor network
        (lit "alice")).run linkedWorld =
      (.ok (pathIn (lit ".") network (lit "alice")), linkedWorld) :=
  rfl

theorem keepsWay_linked :
    linkedWorld.tree.KeepsWay (pathIn (lit ".") (lit ".") (lit "alice")) := by
  have hparent : linkedWorld.tree.parentOf (pathIn (lit ".") (lit ".") (lit "alice")) =
      .ok ([], .name (lit "alice.json") false) :=
    eq_ok_of_toOption (by decide +kernel)
  intro directory name slash h
  rw [hparent] at h
  obtain ⟨rfl, hlast⟩ := Prod.mk.inj (Except.ok.inj h)
  obtain ⟨rfl, rfl⟩ := FileTree.Last.name.inj hlast
  rw [hparent]
  exact eq_ok_of_toOption (by decide +kernel)

/-- In the network `.` the file takes the place of the link, which the path does not need. -/
theorem commands_agree_in_linkedWorld :
    ∃ w₁, (run (linkedLines (lit ".") .generate) (.seed Seed.zero)).run linkedWorld = (.ok 0, w₁) ∧
      ∀ source, ((run (linkedLines (lit ".") .locate) source).run w₁).1 = .ok 0 ∧
        ((run (linkedLines (lit ".") .display) source).run w₁).1 = .ok 0 := by
  obtain ⟨w₁, hrun, hcontent⟩ := generate_in_linkedWorld (Or.inl rfl)
  have hsettings := run_settingsOf_linked (lit ".")
  have hlog : ∀ s,
      (settingsOf (linkedInvocation (lit "."))).run linkedWorld = (.ok s, linkedWorld) →
        logFileOf s = none := by
    intro s hs
    obtain rfl := eq_of_run_ok hsettings hs
    rfl
  have hconfig : ∀ file, (linkedInvocation (lit ".")).configFile = some file →
      w₁.tree.contentAt file = linkedWorld.tree.contentAt file := by
    intro file hfile
    obtain rfl := Option.some.inj hfile
    exact hcontent
  obtain ⟨s, path, hs, hpath, -, hlocate, hdisplay, -⟩ :=
    commands_agree sameOptions_linkedLines.1 wellFormed_linkedWorld (by decide)
      linkedWorld_console hlog hrun hconfig
  obtain rfl := eq_of_run_ok hsettings hs
  obtain rfl := eq_of_run_ok (pathFor_linked (lit ".")) hpath
  have hmatch : w₁.Matches w₁ := ⟨rfl, rfl, rfl⟩
  refine ⟨w₁, hrun, fun source => ⟨?_, ?_⟩⟩
  · rw [hlocate w₁ source hmatch]
  · rw [(hdisplay fun _ => keepsWay_linked).2 w₁ source hmatch]

/-- In the network `alice.json` the path goes through the link that the file replaces. The pair is
generated, and the run that should display it fails. -/
theorem replaced_link_is_not_displayed :
    SameOptions (linkedLines (lit "alice.json")) (linkedInvocation (lit "alice.json")) ∧
      linkedWorld.tree.WellFormed ∧
      ∃ w₁, (run (linkedLines (lit "alice.json") .generate) (.seed Seed.zero)).run linkedWorld =
          (.ok 0, w₁) ∧
        w₁.tree.contentAt (lit "c.json") = linkedWorld.tree.contentAt (lit "c.json") ∧
        ((run (linkedLines (lit "alice.json") .display) (.seed Seed.zero)).run w₁).1 = .ok 1 := by
  obtain ⟨w₁, hrun, hcontent⟩ := generate_in_linkedWorld (Or.inr rfl)
  refine ⟨sameOptions_linkedLines.2, wellFormed_linkedWorld, w₁, hrun, hcontent, ?_⟩
  have hafter : ((run (linkedLines (lit "alice.json") .display) (.seed Seed.zero)).run
      ((run (linkedLines (lit "alice.json") .generate) (.seed Seed.zero)).run linkedWorld).2).1 =
        .ok 1 :=
    eq_ok_of_toOption (by decide +kernel)
  rwa [hrun] at hafter

end CommandLine

end Keybox

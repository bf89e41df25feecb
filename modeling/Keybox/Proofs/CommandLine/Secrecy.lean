import Keybox.Proofs.CommandLine.Commands
import Keybox.Proofs.Store.Secrecy
import Mathlib.Data.List.Infix

/-!
# What runs show of a private key

A run that generates a pair prints and logs the account, the public key and the path of the file,
which come from the account, the network and the base directory as they are. If it fails, the line
about the failure shows paths between quotes: one of these, that of the configuration file or of the
log file, or that of a temporary file, which can start with the working directory.

**Results.** A run that generates a pair puts the payload of its private key into the pair's file
and shows it nowhere else, if the names that it shows lack the payload and, in case it fails, their
quoted forms lack it too. A run that displays a pair from an accepted file does not show it, and
neither do writing and reading such a pair, nor the pair itself. Without the condition on quoted
forms this is false: the escape of a line feed ends with the letter `n`, which can be what the rest
of an account lacks to be the payload.
-/

namespace Keybox

/-- A failure to write shows a payload only between the quotes around its paths. -/
theorem Failure.Names.message_lacks
    {secret : Text}
    (hs : Base58.IsPayload secret)
    {failure : Failure}
    (h : failure.Names fun t => t.quoted.Lacks secret)
    (hfamily : failure.family ≠ .value) :
    failure.message.Lacks secret := by
  rcases h with rfl | ⟨fault, rfl, hnames⟩
  · exact hs.lacks_of_isShort (by decide)
  · refine FileFault.Names.message_lacks hs hnames ?_
    rintro cause rfl
    exact absurd rfl hfamily

namespace CommandLine

open Store

variable
  {secret : Text}
  {w w₁ w' : World}
  {words : List Text}
  {i : Invocation}
  {s : Settings}
  {source : RandomSource}
  {failure : Failure}

/-- The account, the network and the base directory of a run lack a secret, in the form in which
they are shown. -/
structure NamesLack
    (shown : Text → Text)
    (secret : Text)
    (i : Invocation)
    (w : World) : Prop where
  account : (shown i.account).Lacks secret
  network : ∀ s, (settingsOf i).run w = (.ok s, w) → (shown (networkOf i s)).Lacks secret
  base : ∀ s, (settingsOf i).run w = (.ok s, w) → (shown (s.baseDir.getD w.home)).Lacks secret

/-- What the failures of a run can show lacks a secret: all names between quotes, and what is said
about a configuration file that holds no settings. The numbers of positions in a file's name and of
temporary files are not beyond all bounds. -/
structure FaultsLack
    (secret : Text)
    (i : Invocation)
    (w : World) : Prop where
  names : NamesLack Text.quoted secret i w
  configFile : ∀ file, i.configFile = some file →
    file.quoted.Lacks secret ∧ file.length < 10 ^ 50
  configFault : ∀ fault, (settingsOf i).run w = (.error (.settings fault), w) →
    fault.message.Lacks secret
  logFile : ∀ s file, (settingsOf i).run w = (.ok s, w) → logFileOf s = some file →
    file.quoted.Lacks secret
  working : w.tree.workingPath.quoted.Lacks secret
  size : w.tree.entries.length < 10 ^ 50

/-! ## Lines on the console and in the output -/

theorem conceals_errorLine
    (hs : Base58.IsPayload secret)
    (w : World)
    {l message : Text}
    (hl : Base58.isOpening l = true)
    (hmessage : message.Lacks secret) :
    w.Conceals secret { w with console := w.console ++ (l ++ message) ++ lit "\n" } := by
  rw [List.append_assoc]
  exact World.conceals_console hs w
    (Text.QuietLines.line hs (hs.lacks_opening_append hl hmessage))

theorem quietLines_printed
    (hs : Base58.IsPayload secret)
    {lines : List Text}
    (h : ∀ t ∈ lines, t.Lacks secret) :
    (printed lines).QuietLines secret := by
  induction lines with
  | nil =>
      exact .nil hs
  | cons t rest ih =>
      rw [printed, List.flatMap_cons]
      exact (Text.QuietLines.line hs (h t List.mem_cons_self)).append hs
        (ih fun u hu => h u (List.mem_cons_of_mem t hu))

theorem quietLines_generatedLines
    (hs : Base58.IsPayload secret)
    {p : KeyPair}
    {path : Text}
    (haccount : p.account.Lacks secret)
    (hpublic : p.publicKey.length < 64)
    (hpath : path.Lacks secret) :
    (printed (generatedLines p path)).QuietLines secret := by
  apply quietLines_printed hs
  intro t ht
  rcases List.mem_cons.mp ht with rfl | ht
  · simp only [List.append_assoc]
    exact hs.lacks_opening_append (by decide)
      (hs.lacks_append_fence_append (by decide) haccount hpath)
  · obtain rfl := List.mem_singleton.mp ht
    exact hs.lacks_opening_append (by decide) (hs.lacks_of_length hpublic)

theorem quietLines_displayedLines
    (hs : Base58.IsPayload secret)
    {p : KeyPair}
    (haccount : p.account.Lacks secret)
    (hpublic : p.publicKey.length < 64) :
    (printed (displayedLines p)).QuietLines secret := by
  apply quietLines_printed hs
  intro t ht
  rcases List.mem_cons.mp ht with rfl | ht
  · exact hs.lacks_opening_append (by decide) haccount
  · obtain rfl := List.mem_singleton.mp ht
    exact hs.lacks_opening_append (by decide) (hs.lacks_of_length hpublic)

/-! ## The settings and the log file -/

theorem message_lacks_of_settingsOf
    (hs : Base58.IsPayload secret)
    (hfaults : FaultsLack secret i w)
    (h : (settingsOf i).run w = (.error failure, w)) :
    failure.message.Lacks secret := by
  have hfound := h
  rw [run_settingsOf] at hfound
  replace hfound := (Prod.mk.inj hfound).1
  rw [settingsFound] at hfound
  split at hfound
  · cases hfound
  · next file hfile =>
    split at hfound
    · next fault hread =>
      cases hfound
      obtain ⟨hquoted, hlength⟩ := hfaults.configFile file hfile
      have hreads : FailsWith (fun _ => True) (FileFault.Names (· = file)) (FileAct.read file) :=
        FileAct.failsWith_onPath (Q := (· = file)) rfl _
      have hnames := hreads w.tree trivial fault _ (Prod.ext hread rfl)
      refine FileFault.Names.message_lacks hs (hnames.mono fun t ht => ht ▸ hquoted) ?_
      rintro cause rfl
      obtain ⟨_, rfl, hcause⟩ := hnames
      have hbounds := Text.notFileName?_bounds hcause
      exact hs.lacks_unencodable (by omega) (by omega)
    · split at hfound
      · next fault _ =>
        cases hfound
        exact hfaults.configFault fault h
      · cases hfound

/-- Opening the log changes the files and the loggers, and adds at most one entry. -/
theorem openLog_frame
    {r : Except Failure Unit}
    (h : (openLog s).run w = (r, w₁)) :
    w₁.clock = w.clock ∧ w₁.home = w.home ∧ w₁.tree.workingPath = w.tree.workingPath ∧
      w₁.tree.entries.length ≤ w.tree.entries.length + 1 := by
  rw [openLog] at h
  split at h
  · cases h
    exact ⟨rfl, rfl, rfl, Nat.le_succ _⟩
  · next file _ =>
    obtain ⟨loggers, hsame | ⟨directory, entry, hadds⟩⟩ :=
      Act.world_makeLogger Store.loggerName (some file) w
    · obtain rfl := (congrArg Prod.snd h).symm.trans hsame
      exact ⟨rfl, rfl, rfl, Nat.le_succ _⟩
    · obtain rfl := (congrArg Prod.snd h).symm.trans hadds
      exact ⟨rfl, rfl, rfl, FileTree.length_store_le _ _ _⟩

/-- A log file that cannot be opened is named by its absolute path. -/
theorem names_of_openLog
    (hs : Base58.IsPayload secret)
    (hfaults : FaultsLack secret i w)
    (hsettings : (settingsOf i).run w = (.ok s, w))
    (h : (openLog s).run w = (.error failure, w₁)) :
    failure.Names fun t => t.quoted.Lacks secret := by
  obtain ⟨file, fault, hrefused, rfl⟩ := logRefused_of_openLog (congrArg Prod.fst h)
  have hpath : (Path.absolute w.tree.workingPath file).quoted.Lacks secret :=
    (Path.inherited_quoted hs).absolute (FileTree.isAbsolute_join_workingPath w.tree file)
      hfaults.working (hfaults.logFile s file hsettings hrefused.named)
  have hopens : FailsWith (fun _ => True) (FileFault.Names fun t => t.quoted.Lacks secret)
      (FileAct.openAppend (Path.absolute w.tree.workingPath file)) :=
    FileAct.failsWith_onPath (Q := fun t => t.quoted.Lacks secret) hpath _
  exact Or.inr ⟨fault, rfl, hopens w.tree trivial fault _ (Prod.ext hrefused.refused rfl)⟩

/-! ## Runs that generate a pair -/

/-- What a run that generates a pair puts into a file. -/
def GeneratesAt
    (i : Invocation)
    (p : KeyPair)
    (w : World)
    (place : Place)
    (content : Bytes) : Prop :=
  ∃ s w₁, (settingsOf i).run w = (.ok s, w) ∧ (openLog s).run w = (.ok (), w₁) ∧
    s.store.StoresAt p (networkOf i s) w₁ place content

theorem wellFormed_of_openLog
    (hwf : w.tree.WellFormed)
    {r : Except Failure Unit}
    (hlog : (openLog s).run w = (r, w₁)) :
    w₁.tree.WellFormed := by
  have hkept := preserves_openLog World.kept_orderly s w hwf
  rwa [hlog] at hkept

/-- The paths that a run names when it cannot write the pair. -/
theorem names_of_write_in_run
    (hs : Base58.IsPayload secret)
    (hwf : w.tree.WellFormed)
    (hfaults : FaultsLack secret i w)
    (hsettings : (settingsOf i).run w = (.ok s, w))
    (hlog : (openLog s).run w = (.ok (), w₁))
    {p : KeyPair}
    (haccount : p.account = i.account)
    (h : (s.store.write p (networkOf i s)).run w₁ = (.error failure, w')) :
    failure.Names fun t => t.quoted.Lacks secret := by
  obtain ⟨-, hhome, hworking, hadded⟩ := openLog_frame hlog
  have hbase := hfaults.names.base s hsettings
  rw [← hhome] at hbase
  have haccountLacks := hfaults.names.account
  rw [← haccount] at haccountLacks
  have hworkingLacks := hfaults.working
  rw [← hworking] at hworkingLacks
  have hsize : w₁.tree.entries.length + (FileAct.missingLimit + 1) < FileAct.scratchLimit := by
    have hbefore := hfaults.size
    rw [FileAct.missingLimit, FileAct.scratchLimit]
    omega
  exact names_of_write_error (Path.inherited_quoted hs) (wellFormed_of_openLog hwf hlog) hbase
    (hfaults.names.network s hsettings) haccountLacks hworkingLacks hsize h

variable
  {seed : Seed}
  {result : Except Failure Nat}

/-- Once its settings are found and its log is open, a run that generates a pair shows the names as
they are if it succeeds, and those that a failed write names if it fails. -/
theorem concealsExcept_run_of_log
    (hs : Base58.IsPayload secret)
    (hclock : w.clock.Lacks secret)
    (hwf : w.tree.WellFormed)
    (hwords : Invocation.ofWords words = .ok i)
    (hcommand : i.command = .generate)
    (hnames : NamesLack id secret i w)
    (hfaults : result ≠ .ok 0 → FaultsLack secret i w)
    (hsettings : (settingsOf i).run w = (.ok s, w))
    (hlog : (openLog s).run w = (.ok (), w₁))
    (h : (run words (.seed seed)).run w = (result, w')) :
    w.ConcealsExcept secret (GeneratesAt i (KeyPair.ofSeed seed i.account) w) w' ∧
      ∀ failure, result = .error failure → failure.family = .value := by
  obtain ⟨hclockSame, hhome, -, -⟩ := openLog_frame hlog
  have hclock₁ := hclock
  rw [← hclockSame] at hclock₁
  have hbase := hnames.base s hsettings
  rw [id_eq, ← hhome] at hbase
  have hnetwork := hnames.network s hsettings
  have hopened :=
    (conceals_openLog hs hlog).except (GeneratesAt i (KeyPair.ofSeed seed i.account) w)
  rw [run_eq hwords hsettings hlog] at h
  rcases hwrite : (s.store.write (KeyPair.ofSeed seed i.account) (networkOf i s)).run w₁ with
    ⟨written, w₂⟩
  have hwrites := concealsExcept_write hs hclock₁ (wellFormed_of_openLog hwf hlog) hbase hnetwork
    hnames.account hwrite
  have hdone := hopened.trans hs
    (hwrites.mono fun place content hstores => ⟨s, w₁, hsettings, hlog, hstores⟩)
  cases written with
  | ok path =>
      rw [run_generate_of_ok hcommand hwrite] at h
      cases h
      have hpath := inherited_pathFor (Q := fun t => t.Lacks secret) (Path.inherited_lacks hs) hbase
        hnetwork hnames.account (pathFor_of_write hwrite)
      have hlines := quietLines_generatedLines hs (p := KeyPair.ofSeed seed i.account)
        hnames.account (KeyText.length_encode_lt seed.length_publicKey) hpath
      exact ⟨hdone.trans hs ((World.conceals_output hs w₂ hlines).except _), nofun⟩
  | error failure =>
      rw [run_generate_of_error hcommand hwrite] at h
      dsimp only at h
      split at h
      · next hreports =>
        cases h
        have hlack := hfaults nofun
        have hfamily : failure.family ≠ .value := by
          intro hvalue
          rw [hvalue] at hreports
          cases hreports
        have hfailure := names_of_write_in_run hs hwf hlack hsettings hlog rfl hwrite
        have hmessage := hfailure.message_lacks hs hfamily
        have hprints := conceals_errorLine hs w₂ (l := lit "ERROR: ") (by decide) hmessage
        exact ⟨hdone.trans hs (hprints.except _), nofun⟩
      · next hreports =>
        cases h
        refine ⟨hdone, ?_⟩
        rintro _ ⟨⟩
        cases hfamily : failure.family <;> rw [hfamily] at hreports <;>
          first | rfl | exact absurd rfl hreports

/-- A run that generates a pair shows its private key nowhere but in the pair's file, and a failure
that it passes on does not show it either, unless it is about a bad value. -/
theorem concealsExcept_run_generate
    (hs : Base58.IsPayload secret)
    (hclock : w.clock.Lacks secret)
    (hwf : w.tree.WellFormed)
    (hwords : Invocation.ofWords words = .ok i)
    (hcommand : i.command = .generate)
    (hnames : NamesLack id secret i w)
    (hfaults : result ≠ .ok 0 → FaultsLack secret i w)
    (h : (run words (.seed seed)).run w = (result, w')) :
    w.ConcealsExcept secret (GeneratesAt i (KeyPair.ofSeed seed i.account) w) w' ∧
      ∀ failure, result = .error failure → failure.family ≠ .value →
        failure.message.Lacks secret := by
  rcases settingsOf_cases i w with ⟨s, hsettings⟩ | ⟨failure, hsettings⟩
  · rcases hlog : (openLog s).run w with ⟨opened, w₁⟩
    cases opened with
    | ok =>
        obtain ⟨hconceals, hvalue⟩ := concealsExcept_run_of_log hs hclock hwf hwords hcommand hnames
          hfaults hsettings hlog h
        exact ⟨hconceals, fun failure hresult hfamily => absurd (hvalue failure hresult) hfamily⟩
    | error failure =>
        rw [run_of_log_error hwords hsettings hlog] at h
        cases h
        refine ⟨(conceals_openLog hs hlog).except _, ?_⟩
        rintro _ ⟨⟩ hfamily
        exact (names_of_openLog hs (hfaults nofun) hsettings hlog).message_lacks hs hfamily
  · rw [run_of_settings_error hwords hsettings] at h
    split at h
    · cases h
      have hmessage := message_lacks_of_settingsOf hs (hfaults nofun) hsettings
      have hprints := conceals_errorLine hs w (l := lit "ERROR: cannot load config: ")
        (by decide) hmessage
      exact ⟨hprints.except _, nofun⟩
    · cases h
      refine ⟨(World.Conceals.refl hs w).except _, ?_⟩
      rintro _ ⟨⟩ -
      exact message_lacks_of_settingsOf hs (hfaults nofun) hsettings

/-! ## Runs that display a pair -/

/-- A run that displays a pair shows the account and a public key, which is short. -/
theorem conceals_run_display
    (hs : Base58.IsPayload secret)
    (hclock : w.clock.Lacks secret)
    (hwords : Invocation.ofWords words = .ok i)
    (hcommand : i.command = .display)
    (hnames : NamesLack id secret i w)
    (h : (run words source).run w = (.ok 0, w')) :
    w.Conceals secret w' := by
  obtain ⟨s, w₁, hsettings, hlog, hcarry⟩ := exists_carryOut_of_run hwords h
  obtain ⟨hclockSame, hhome, -, -⟩ := openLog_frame hlog
  rw [← hclockSame] at hclock
  have hbase := hnames.base s hsettings
  rw [id_eq, ← hhome] at hbase
  rw [carryOut, hcommand] at hcarry
  obtain ⟨p, w₂, hload, hprint⟩ := run_bind_eq_ok_iff.mp hcarry
  obtain ⟨path, w₁', hpath, hread⟩ := run_bind_eq_ok_iff.mp hload
  obtain rfl : w₁' = w₁ := by
    rw [← s.store.run_pathFor (networkOf i s) i.account w₁, hpath]
  have hpathLacks := inherited_pathFor (Q := fun t => t.Lacks secret) (Path.inherited_lacks hs)
    hbase (hnames.network s hsettings) hnames.account hpath
  obtain ⟨hreads, haccount, hpublic⟩ :=
    conceals_readPair_of_ok hs hclock hnames.account hpathLacks hread
  rw [run_printLines] at hprint
  obtain ⟨-, rfl⟩ := Prod.mk.inj hprint
  have hlines := quietLines_displayedLines hs (p := p) (haccount ▸ hnames.account) hpublic
  exact ((conceals_openLog hs hlog).trans hs hreads).trans hs
    (World.conceals_output hs w₂ hlines)

/-- The line that generates a pair for an account below the working directory. -/
def generateLine
    (account : Text) : List Text :=
  [lit "--base-dir", lit ".", lit "generate", account]

/-- The invocation of that line. -/
def generateInvocation
    (account : Text) : Invocation :=
  ⟨none, some (lit "."), .generate, account, none⟩

theorem run_settingsOf_generate
    (account : Text)
    (w : World) :
    (settingsOf (generateInvocation account)).run w =
      (.ok (withOptions (generateInvocation account) Settings.default), w) :=
  run_settingsOf (generateInvocation account) w

/-- Only the account of such a line is in question. -/
theorem namesLack_generate
    {shown : Text → Text}
    (hs : Base58.IsPayload secret)
    {account : Text}
    (haccount : (shown account).Lacks secret)
    (hnetwork : (shown (lit "testnet")).length < 64)
    (hbase : (shown (lit ".")).length < 64)
    (w : World) :
    NamesLack shown secret (generateInvocation account) w := by
  have hsettings := run_settingsOf_generate account w
  refine ⟨haccount, fun s hfound => ?_, fun s hfound => ?_⟩
  · obtain rfl := eq_of_run_ok hsettings hfound
    exact hs.lacks_of_length hnetwork
  · obtain rfl := eq_of_run_ok hsettings hfound
    exact hs.lacks_of_length hbase

theorem faultsLack_generate
    (hs : Base58.IsPayload secret)
    {account : Text}
    (haccount : account.quoted.Lacks secret) :
    FaultsLack secret (generateInvocation account) emptyWorld := by
  have hsettings := run_settingsOf_generate account emptyWorld
  refine ⟨namesLack_generate hs haccount (by decide +kernel) (by decide +kernel) emptyWorld, nofun,
    ?_, ?_, hs.lacks_of_isShort (by decide +kernel), by decide⟩
  · intro fault hfault
    cases (Prod.mk.inj (hsettings.symm.trans hfault)).1
  · intro s file hfound hfile
    obtain rfl := eq_of_run_ok hsettings hfound
    cases hfile

theorem namesLack_linked
    (hs : Base58.IsPayload secret) :
    NamesLack id secret (linkedInvocation (lit ".")) linkedWorld := by
  have hsettings := run_settingsOf_linked (lit ".")
  have hnetwork : Text.Lacks (lit ".") secret := hs.lacks_of_isShort (by decide)
  refine ⟨hs.lacks_of_isShort (by decide), fun s _ => hnetwork, fun s hfound => ?_⟩
  obtain rfl := eq_of_run_ok hsettings hfound
  exact hs.lacks_of_isShort (by decide)

/-- A seed whose private key has a payload that begins with the letter `n`. -/
def escapedSeed : Seed :=
  ⟨39 :: List.replicate 31 0, by simp⟩

/-- The payload of that seed with a line feed in place of its first letter. -/
def escapedAccount : Text :=
  chr '\n' :: (Base58.encode escapedSeed.privateKey).tail

end CommandLine

end Keybox

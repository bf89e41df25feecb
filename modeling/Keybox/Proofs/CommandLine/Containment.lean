import Keybox.Proofs.CommandLine.Phases
import Keybox.Proofs.Session
import Keybox.Proofs.Store.Containment
import Keybox.Proofs.Store.Refinement

/-!
# Credentials stay inside the store

A run that generates a pair opens the log file that the settings name, and writes the pair into the
store. The first leaves the store's directory for a file of the user's choice; the second stays
inside it if the ids do.

**Results.** For ids that stay inside the store their path lies in its directory, and neither a write
nor a run that generates a pair changes the tree but within the bounds of the store and its log. Ids
that start at the root or have too many parents lead out of it.
-/

namespace Keybox

open FileTree Store

namespace Loggers

theorem mem_chain_self
    (ls : Loggers)
    (name : Text) :
    name ∈ ls.chain name := by
  rw [chain]
  cases name.length with
  | zero =>
      exact List.mem_singleton_self name
  | succ bound =>
      rw [chainWithin]
      split
      · next hroot =>
        rw [hroot]
        exact List.mem_singleton_self _
      · split <;> exact List.mem_cons_self

/-- A record goes to what is attached to its own name. -/
theorem mem_handlersFor_attach
    (ls : Loggers)
    (name : Text)
    (h : Handler) :
    h ∈ (ls.attach name h).handlersFor name := by
  refine List.mem_flatMap.mpr ⟨name, mem_chain_self _ name, ?_⟩
  rw [handlersOf_attach]
  exact List.mem_append_right _ List.mem_cons_self

end Loggers

namespace CommandLine

variable
  {w : World}
  {words : List Text}
  {i : Invocation}
  {source : RandomSource}
  {s : Settings}
  {network account : Text}

/-- The bounds of a run that writes into the store of settings: those of the store, with the log file
that they name. -/
def boundsOf
    (s : Settings)
    (w : World) : Bounds where
  inside := (s.store.bounds w).inside
  passed := (s.store.bounds w).passed
  opened place := ∃ file, logFileOf s = some file ∧ place = w.tree.placeOf file
  logs serial := ∃ path, .file path serial ∈
    ((openLog s).run w).2.loggers.handlersFor (Loggers.canonical loggerName)

/-! ## The log file -/

/-- Opening a file for its end opens a file that is there, or makes one at the place of its path. -/
theorem openAppend_eq_ok
    {t t' : FileTree}
    (hwf : t.WellFormed)
    (hlinks : t.LinkFree)
    {path : Text}
    {mode serial : Nat}
    (h : t.openAppend path mode = .ok (serial, t')) :
    t' = t ∨ ∃ directory name, t.placeOf path = directory ++ [name] ∧
      t.get? (directory ++ [name]) = none ∧ serial = t.nextSerial ∧
        t' = t.addFile (directory ++ [name]) mode := by
  rw [openAppend, bind_eq_ok_iff] at h
  obtain ⟨target, hresolve, h⟩ := h
  split at h
  · split at h
    · cases h
      exact .inl rfl
    · cases h
  · cases h
  · next directory name =>
    cases h
    have hopens : t.Opens path (directory ++ [name]) := .vacant hresolve
    refine .inr ⟨directory, name, hopens.placeOf_eq hwf hlinks, ?_, rfl, rfl⟩
    obtain ⟨_, _, _, _, _, _, ⟨heq, hnone⟩ | ⟨_, _, _, heq, -⟩⟩ :=
      exists_steps_of_resolve hwf hresolve (by rintro _ _ ⟨⟩)
    · cases heq
      exact hnone
    · cases heq

/-- What the opening of the log leaves behind. -/
structure LogOpened
    (s : Settings)
    (w w₁ : World) : Prop where
  keeps : (boundsOf s w).Keeps w.tree w₁.tree
  linkFree : w₁.tree.LinkFree
  workingDir : w₁.tree.workingDir = w.tree.workingDir
  home : w₁.home = w.home

theorem logOpened_of_same
    (hlinks : w.tree.LinkFree)
    (s : Settings)
    (loggers : Loggers) :
    LogOpened s w { w with loggers := loggers } :=
  ⟨.refl _ _, hlinks, rfl, rfl⟩

/-- Opening the log adds the log file at most. -/
theorem logOpened_openLog
    (hwf : w.tree.WellFormed)
    (hlinks : w.tree.LinkFree)
    (s : Settings) :
    LogOpened s w ((openLog s).run w).2 := by
  cases hfile : logFileOf s with
  | none =>
      rw [run_openLog_of_none hfile]
      exact logOpened_of_same hlinks s w.loggers
  | some file =>
      have hopen := run_openLog hfile w
      dsimp only at hopen
      split at hopen
      · rw [hopen]
        exact logOpened_of_same hlinks s _
      · split at hopen
        · next serial t hrun =>
          obtain ⟨-, happend⟩ := FileAct.run_onPath_eq_ok_iff.mp hrun
          rcases openAppend_eq_ok hwf hlinks happend with
            rfl | ⟨directory, name, hplace, hnone, rfl, rfl⟩
          · rw [hopen]
            exact logOpened_of_same hlinks s _
          · rw [placeOf_absolute hwf] at hplace
            have hlog : (boundsOf s w).logs w.tree.nextSerial := by
              refine ⟨Path.absolute w.tree.workingPath file, ?_⟩
              rw [hopen]
              exact Loggers.mem_handlersFor_attach _ _ _
            rw [hopen]
            refine ⟨fun place => ?_, fun place target => ?_, rfl, rfl⟩
            · dsimp only
              rw [get?_addFile _ (by simp)]
              split
              · next heq =>
                rw [heq, hnone]
                exact .opened ⟨file, hfile, hplace.symm⟩ hlog
              · exact .same
            · dsimp only
              rw [get?_addFile _ (by simp)]
              split
              · exact nofun
              · exact hlinks place target
        · next fault t hrun =>
          obtain rfl := FileAct.tree_of_run_ofStep_error hrun
          rw [hopen]
          exact logOpened_of_same hlinks s _

/-! ## Generating -/

theorem account_of_generate
    {p : KeyPair}
    (h : KeyPair.generate source account = .ok p) :
    p.account = account := by
  cases source with
  | seed seed =>
      cases h
      rfl
  | unavailable cause =>
      cases h
  | broken cause =>
      cases h

/-- Generating a pair and writing it changes the tree as the write does, if there is a pair. -/
theorem tree_carryOut_generate
    (hcommand : i.command = .generate)
    (store : Store)
    (network : Text)
    (source : RandomSource)
    (w : World) :
    ((carryOut store network i source).run w).2.tree = w.tree ∨
      ∃ p, KeyPair.generate source i.account = .ok p ∧
        ((carryOut store network i source).run w).2.tree =
          ((store.write p network).run w).2.tree := by
  rw [carryOut, hcommand]
  dsimp only
  cases hpair : KeyPair.generate source i.account with
  | error fault =>
      exact .inl rfl
  | ok p =>
      refine .inr ⟨p, rfl, ?_⟩
      have hgiven : (Act.ofExcept .random (.ok p : Except DrawFault KeyPair)).run w = (.ok p, w) :=
        rfl
      rw [run_bind_of_ok hgiven, run_bind]
      rcases (store.write p network).run w with ⟨r, w'⟩
      cases r with
      | ok path =>
          dsimp only
          rw [run_printLines]
      | error failure =>
          rfl

/-- The bounds of the store once the log is open are those of the run. -/
theorem keeps_boundsOf
    {w₁ : World}
    {t t' : FileTree}
    (hopened : LogOpened s w w₁)
    (hw₁ : ((openLog s).run w).2 = w₁)
    (h : (s.store.bounds w₁).Keeps t t') :
    (boundsOf s w).Keeps t t' := by
  have hbase := base_fst_congr hopened.home s.store
  intro place
  refine (h place).mono ?_ ?_ ?_ ?_
  · rintro place ⟨dir, hdir, hplace⟩
    rw [placeOf_congr hopened.workingDir] at hplace
    exact ⟨dir, hbase ▸ hdir, hplace⟩
  · rintro place ⟨dir, hdir, hplace⟩
    exact ⟨dir, hbase ▸ hdir, (passes_congr hopened.workingDir).mp hplace⟩
  · rintro place ⟨⟩
  · rintro serial ⟨path, hmem⟩
    exact ⟨path, hw₁ ▸ hmem⟩

/-- A run that generates a pair under ids that stay inside the store keeps to its bounds. -/
theorem keeps_run
    (hids : Inward network i.account)
    (hwords : Invocation.ofWords words = .ok i)
    (hcommand : i.command = .generate)
    (hwf : w.tree.WellFormed)
    (hlinks : w.tree.LinkFree)
    (hsettings : (settingsOf i).run w = (.ok s, w))
    (hnetwork : networkOf i s = network)
    (source : RandomSource) :
    (boundsOf s w).Keeps w.tree ((run words source).run w).2.tree := by
  have hopened := logOpened_openLog hwf hlinks s
  have hwf₁ := preserves_openLog World.kept_orderly s w hwf
  rcases hlog : (openLog s).run w with ⟨r, w₁⟩
  rw [hlog] at hopened hwf₁
  cases r with
  | error failure =>
      rw [run_of_log_error hwords hsettings hlog]
      exact hopened.keeps
  | ok =>
      obtain ⟨_, hworld⟩ := world_run hwords hsettings hlog source
      rw [hworld, hnetwork]
      dsimp only
      rcases tree_carryOut_generate hcommand s.store network source w₁ with
        hsame | ⟨p, hpair, hwrite⟩
      · rw [hsame]
        exact hopened.keeps
      · rw [hwrite]
        rw [← account_of_generate hpair] at hids
        exact hopened.keeps.trans (keeps_boundsOf hopened (by rw [hlog])
          (keeps_write hids hwf₁ hopened.linkFree))

/-- **Credentials stay inside the store.** If neither id starts at the root and no beginning of their
components has more parents than names, the path of their file goes on from the directory of all
credentials by the ids as they are, and its normal form by ordinary names. A write, whether it
succeeds or fails, then changes a tree without links only inside that directory, but for new
directories on the way to it and more content for log files that are open. The way to it are its
ancestors, if the base directory has no parents itself. The temporary file of an atomic write is
inside as well. A run that generates a pair changes nothing if it has no settings, and else nothing
but that and the log file that the settings name. -/
theorem credentials_stay_inside
    (hids : Inward network account) :
    (∀ dir,
        Path.components (pathIn dir network account) =
          Path.components (credentialsIn dir) ++
            (Path.components network ++ Path.components (account ++ lit ".json")) ∧
        Path.LiesIn (pathIn dir network account) (credentialsIn dir)) ∧
      (∀ (s : Store) (p : KeyPair) (w : World), p.account = account →
        w.tree.WellFormed → w.tree.LinkFree →
          (s.bounds w).Keeps w.tree ((s.write p network).run w).2.tree) ∧
      (∀ (t : FileTree) (dir : Text), t.WellFormed → t.LinkFree →
        (∀ place, Path.up ∉ Path.components dir → t.Passes (credentialsIn dir) place →
            place <+: t.placeOf (credentialsIn dir)) ∧
          ∀ scratch t',
            t.makeScratch (FileAct.scratchDirectory t (pathIn dir network account)) =
              .ok (scratch, t') →
            t.placeOf (credentialsIn dir) <+: scratch.place) ∧
      ∀ words i source w, Invocation.ofWords words = .ok i → i.command = .generate →
        i.account = account → w.tree.WellFormed → w.tree.LinkFree →
          (∀ failure, (settingsOf i).run w = (.error failure, w) →
            ((run words source).run w).2.tree = w.tree) ∧
          ∀ s, (settingsOf i).run w = (.ok s, w) → networkOf i s = network →
            (boundsOf s w).Keeps w.tree ((run words source).run w).2.tree := by
  refine ⟨fun dir => ⟨components_pathIn hids dir, liesIn_pathIn hids dir⟩, ?_, ?_, ?_⟩
  · rintro s p w rfl hwf hlinks
    exact keeps_write hids hwf hlinks
  · intro t dir hwf hlinks
    exact ⟨fun place => prefix_placeOf_of_passes,
      fun scratch t' => prefix_place_of_makeScratch hids hwf hlinks⟩
  · rintro words i source w hwords hcommand rfl hwf hlinks
    refine ⟨fun failure hsettings => ?_, fun s hsettings hnetwork =>
      keeps_run hids hwords hcommand hwf hlinks hsettings hnetwork source⟩
    rw [run_of_settings_error hwords hsettings]
    split <;> rfl

/-- Ids with parents that stay inside, and a run that generates a pair for them. -/
theorem sideways_ids_stay_inside :
    Inward (lit "a/../main") (lit "b/../alice") ∧
      Path.LiesIn (pathIn (lit ".") (lit "a/../main") (lit "b/../alice"))
        (credentialsIn (lit ".")) ∧
      (((Store.mk (some (lit ".")) true true).bounds emptyWorld).Keeps emptyWorld.tree
        (((Store.mk (some (lit ".")) true true).write { nullPair with account := lit "b/../alice" }
          (lit "a/../main")).run emptyWorld).2.tree) ∧
      (boundsOf { Settings.default with baseDir := some (lit ".") } emptyWorld).Keeps
        emptyWorld.tree
        ((run [lit "--base-dir", lit ".", lit "generate", lit "b/../alice", lit "--network",
          lit "a/../main"] (.seed Seed.zero)).run emptyWorld).2.tree := by
  have hids : Inward (lit "a/../main") (lit "b/../alice") := by
    decide +kernel
  have hwf := site_emptyWorld.wellFormed
  have hlinks : emptyWorld.tree.LinkFree := site_emptyWorld.noLinks
  obtain ⟨hpath, hwrites, -, hruns⟩ := credentials_stay_inside hids
  have hwords : Invocation.ofWords [lit "--base-dir", lit ".", lit "generate", lit "b/../alice",
      lit "--network", lit "a/../main"] =
        .ok ⟨none, some (lit "."), .generate, lit "b/../alice", some (lit "a/../main")⟩ := by
    with_unfolding_all rfl
  obtain ⟨-, hkeeps⟩ := hruns _ _ (.seed Seed.zero) emptyWorld hwords rfl rfl hwf hlinks
  exact ⟨hids, (hpath (lit ".")).2, hwrites _ _ emptyWorld rfl hwf hlinks, hkeeps _ rfl rfl⟩

/-! ## Ways out -/

/-- A pair of an account, without keys. -/
def keylessPair : KeyPair :=
  ⟨lit "x", [], [], [], [], []⟩

/-- A world in which what the store logs goes to a file. -/
def loggedWorld : World :=
  { emptyWorld with
    tree := ⟨[([lit "k.log"], .file 0 plainFileMode [])], [], 1⟩
    loggers := [⟨lit "keystore", [.console, .file (lit "/k.log") 0]⟩] }

/-- A world whose only file holds settings that name a log file. -/
def namingWorld : World :=
  { emptyWorld with
    tree := ⟨[([lit "c.json"], .file 0 plainFileMode
      (Utf8.encode (lit "\x7b\"log_file\": \"k.log\"\x7d")))], [], 1⟩ }

/-- The line that generates a pair under these settings. -/
def namingWords : List Text :=
  [lit "--config", lit "c.json", lit "generate", lit "x"]

/-- Settings that name a log file have it made, even if no pair can be generated. -/
theorem get?_namingWorld :
    ((run namingWords (.unavailable [])).run namingWorld).2.tree.get? [lit "k.log"] =
      some (.file 1 plainFileMode []) := by
  have hwords : Invocation.ofWords namingWords =
      .ok ⟨some (lit "c.json"), none, .generate, lit "x", none⟩ := by
    with_unfolding_all rfl
  have hread : ((FileAct.read (lit "c.json")).run namingWorld.tree).1 =
      .ok (Utf8.encode (lit "\x7b\"log_file\": \"k.log\"\x7d")) := by
    with_unfolding_all rfl
  have hcontent : Settings.ofBytes (Utf8.encode (lit "\x7b\"log_file\": \"k.log\"\x7d")) =
      .ok { Settings.default with logFile := some (lit "k.log") } :=
    eq_ok_of_toOption (by decide +kernel)
  have hsettings : (settingsOf ⟨some (lit "c.json"), none, .generate, lit "x", none⟩).run
      namingWorld = (.ok { Settings.default with logFile := some (lit "k.log") }, namingWorld) :=
    run_settingsOf_file rfl hread hcontent
  have hopens : ((openLog { Settings.default with logFile := some (lit "k.log") }).run
      namingWorld).1 = .ok () := by
    with_unfolding_all rfl
  rw [run_eq hwords hsettings (Prod.ext hopens rfl)]
  with_unfolding_all rfl

/-- Ids that start at the root or have too many parents lead out of the store. A base directory with
a parent has directories made beside the way to the store, and what is logged goes to a file that is
not in the store. -/
theorem ways_out_of_the_store :
    (¬ Path.LiesIn (pathIn (lit "/home/u") (lit "/etc") (lit "x")) (credentialsIn (lit "/home/u")) ∧
      ¬ Path.LiesIn (pathIn (lit "/home/u") (lit "../..") (lit "x"))
        (credentialsIn (lit "/home/u"))) ∧
    (emptyWorld.tree.placeOf (credentialsIn (lit "/a/../b")) = [lit "b", credentialsDir] ∧
      emptyWorld.tree.get? [lit "a"] = none ∧
      (((Store.mk (some (lit "/a/../b")) false true).write keylessPair (lit "main")).run
        emptyWorld).2.tree.get? [lit "a"] = some (.dir plainDirMode)) ∧
    (loggedWorld.tree.get? [lit "k.log"] = some (.file 0 plainFileMode []) ∧
      (((Store.mk (some (lit "/b")) false true).write keylessPair (lit "main")).run
        loggedWorld).2.tree.get? [lit "k.log"] ≠ some (.file 0 plainFileMode [])) ∧
    (namingWorld.tree.get? [lit "k.log"] = none ∧
      ((run namingWords (.unavailable [])).run namingWorld).2.tree.get? [lit "k.log"] ≠ none) ∧
    ¬ ∀ base network account, network ≠ [] →
        Path.LiesIn (pathIn base network account) (credentialsIn base) := by
  have hroot : ¬ Path.LiesIn (pathIn (lit "/home/u") (lit "/etc") (lit "x"))
      (credentialsIn (lit "/home/u")) :=
    Path.not_liesIn_of_not_prefix (by decide +kernel)
  refine ⟨⟨hroot, Path.not_liesIn_of_not_prefix (by decide +kernel)⟩, ?_, ?_, ?_, ?_⟩
  · refine ⟨by decide +kernel, by decide +kernel, by with_unfolding_all rfl⟩
  · refine ⟨by decide +kernel, ?_⟩
    decide +kernel
  · refine ⟨by decide +kernel, ?_⟩
    rw [get?_namingWorld]
    exact nofun
  · exact fun hall => hroot (hall (lit "/home/u") (lit "/etc") (lit "x") (by decide))

end CommandLine

end Keybox

import Keybox.Proofs.FileTree.Reach
import Keybox.Proofs.Store.FailedWrite

/-!
# Writes that stay inside the store

The path of a pair's file goes on from the directory of all credentials by the network and the
account as they are. Ids that start at the root, or whose components have more parents than names
before them, lead out of that directory. All others stay inside it: their path does by its normal
form, and in a tree without links their file does by its place.

**Results.** Where a tree may change is described by bounds, with the kinds of change that each of its
places admits; such changes can be put together. A write of ids that stay inside keeps to the bounds
of its store, whether it succeeds or fails: the store's directory and what is below it, new
directories on the way to it, and more content for open log files. So does a temporary file.
-/

namespace Keybox

open FileTree

/-! ## Bounds -/

/-- Where a tree may change: at the places inside a directory, at places that are passed on the way
to it, where a log file is opened, and in the files that are open as logs. -/
structure Bounds where
  inside : Place → Prop
  passed : Place → Prop
  opened : Place → Prop
  logs : Nat → Prop

namespace Bounds

/-- What may become of a place within bounds. -/
inductive Allows
    (b : Bounds)
    (place : Place) : Option Entry → Option Entry → Prop
  | same
      {found : Option Entry} :
      Allows b place found found
  | inside
      {found found' : Option Entry}
      (here : b.inside place) :
      Allows b place found found'
  | made
      {mode : Nat}
      (here : b.passed place) :
      Allows b place none (some (.dir mode))
  | opened
      {serial mode : Nat}
      {content : Bytes}
      (here : b.opened place)
      (log : b.logs serial) :
      Allows b place none (some (.file serial mode content))
  | logged
      {serial mode : Nat}
      {content more : Bytes}
      (log : b.logs serial) :
      Allows b place (some (.file serial mode content)) (some (.file serial mode (content ++ more)))

/-- From one tree to another nothing changes but within bounds. -/
def Keeps
    (b : Bounds)
    (t t' : FileTree) : Prop :=
  ∀ place, b.Allows place (t.get? place) (t'.get? place)

variable
  {b b' : Bounds}
  {place : Place}
  {found found' found'' : Option Entry}
  {t t' t'' : FileTree}

theorem Allows.trans
    (h : b.Allows place found found')
    (h' : b.Allows place found' found'') :
    b.Allows place found found'' := by
  cases h with
  | same =>
      exact h'
  | inside here =>
      exact .inside here
  | made here =>
      cases h' with
      | same =>
          exact .made here
      | inside here' =>
          exact .inside here'
  | opened here log =>
      cases h' with
      | same =>
          exact .opened here log
      | inside here' =>
          exact .inside here'
      | logged _ =>
          exact .opened here log
  | logged log =>
      cases h' with
      | same =>
          exact .logged log
      | inside here' =>
          exact .inside here'
      | logged _ =>
          rw [List.append_assoc]
          exact .logged log

theorem Keeps.refl
    (b : Bounds)
    (t : FileTree) :
    b.Keeps t t :=
  fun _ => .same

theorem Keeps.trans
    (h : b.Keeps t t')
    (h' : b.Keeps t' t'') :
    b.Keeps t t'' :=
  fun place => (h place).trans (h' place)

theorem Allows.mono
    (h : b.Allows place found found')
    (hinside : ∀ place, b.inside place → b'.inside place)
    (hpassed : ∀ place, b.passed place → b'.passed place)
    (hopened : ∀ place, b.opened place → b'.opened place)
    (hlogs : ∀ serial, b.logs serial → b'.logs serial) :
    b'.Allows place found found' := by
  cases h with
  | same =>
      exact .same
  | inside here =>
      exact .inside (hinside place here)
  | made here =>
      exact .made (hpassed place here)
  | opened here log =>
      exact .opened (hopened place here) (hlogs _ log)
  | logged log =>
      exact .logged (hlogs _ log)

theorem keeps_unchanged
    (h : t.Unchanged t') :
    b.Keeps t t' := by
  intro place
  rw [h.get]
  exact .same

theorem keeps_becomes
    {entry : Entry}
    (hb : t.Becomes place entry t')
    (hplace : b.inside place) :
    b.Keeps t t' := by
  intro other
  rw [hb.get]
  split
  · next heq =>
    rw [heq]
    exact .inside hplace
  · exact .same

theorem keeps_append
    {serial : Nat}
    (hlog : b.logs serial)
    (t : FileTree)
    (content : Bytes) :
    b.Keeps t (t.append serial content) := by
  intro place
  rw [get?_append]
  cases t.get? place with
  | none =>
      exact .same
  | some entry =>
      cases entry with
      | dir _ =>
          exact .same
      | link _ =>
          exact .same
      | file n mode old =>
          rw [Option.map_some, Entry.onSerial]
          split
          · next hn =>
            rw [hn]
            exact .logged hlog
          · exact .same

theorem keeps_deliver
    {w : World}
    {handler : Handler}
    (hlog : ∀ path serial, handler = .file path serial → b.logs serial)
    (r : LogRecord) :
    b.Keeps w.tree (w.deliver r handler).tree := by
  cases handler with
  | console =>
      rw [World.deliver]
      split <;> exact .refl b w.tree
  | file path serial =>
      simp only [World.deliver]
      split
      · exact .refl b w.tree
      · exact keeps_append (hlog path serial rfl) w.tree _

/-- A record goes to the files that are open for its name, and to no other ones. -/
theorem keeps_log
    {w : World}
    {r : LogRecord}
    (hlogs : ∀ path serial, .file path serial ∈ w.loggers.handlersFor r.name → b.logs serial) :
    b.Keeps w.tree (w.log r).tree := by
  rw [World.log]
  generalize w.loggers.handlersFor r.name = handlers at hlogs
  induction handlers generalizing w with
  | nil =>
      exact .refl b w.tree
  | cons handler rest ih =>
      have hfirst : b.Keeps w.tree (w.deliver r handler).tree :=
        keeps_deliver (fun path serial heq => hlogs path serial (heq ▸ List.mem_cons_self)) r
      exact hfirst.trans
        (ih fun path serial hmem => hlogs path serial (List.mem_cons_of_mem handler hmem))

end Bounds

namespace Store

/-- The directory of all credentials below a base directory. -/
def credentialsIn
    (baseDir : Text) : Text :=
  Path.join baseDir credentialsDir

/-- Ids whose components stay below the directory of all credentials: neither starts at the root,
and no beginning of the components has more parents than names. -/
def Inward
    (network account : Text) : Prop :=
  Path.isAbsolute network = false ∧ Path.isAbsolute account = false ∧
    Path.staysBelow 0
      (Path.components network ++ Path.components (account ++ lit ".json")) = true

instance
    (network account : Text) :
    Decidable (Inward network account) :=
  inferInstanceAs (Decidable (_ ∧ _ ∧ _))

/-- The bounds of a store: the directory of all credentials and what is below it, the way to it, and
the files that are open for what the store logs. -/
def bounds
    (s : Store)
    (w : World) : Bounds where
  inside place := ∃ dir, (s.base.run w).1 = .ok dir ∧ w.tree.placeOf (credentialsIn dir) <+: place
  passed place := ∃ dir, (s.base.run w).1 = .ok dir ∧ w.tree.Passes (credentialsIn dir) place
  opened _ := False
  logs serial := ∃ path,
    .file path serial ∈ w.loggers.handlersFor (Loggers.canonical loggerName)

variable
  {dir network account : Text}
  {t t' : FileTree}
  {place : Place}

/-! ## The path -/

theorem isComponent_credentialsDir :
    Path.IsComponent credentialsDir :=
  ⟨by decide, by decide⟩

theorem isAbsolute_append_json
    (haccount : Path.isAbsolute account = false) :
    Path.isAbsolute (account ++ lit ".json") = false := by
  cases account with
  | nil =>
      rfl
  | cons c rest =>
      exact haccount

theorem components_credentialsIn
    (dir : Text) :
    Path.components (credentialsIn dir) = Path.components dir ++ [credentialsDir] := by
  rw [credentialsIn, Path.components_join isComponent_credentialsDir.isAbsolute_eq,
    isComponent_credentialsDir.components_eq]

theorem getLast?_credentialsIn
    (dir : Text) :
    (credentialsIn dir).getLast? = credentialsDir.getLast? := by
  by_cases hdir : dir = []
  · rw [hdir]
    rfl
  · exact isComponent_credentialsDir.getLast?_join hdir

/-- The path of a pair's file goes on from the directory of all credentials. -/
theorem pathIn_eq_of_inward
    (hids : Inward network account)
    (dir : Text) :
    pathIn dir network account =
      credentialsIn dir ++ Path.slash :: Path.join network (account ++ lit ".json") := by
  have hlast := getLast?_credentialsIn dir
  have hne : credentialsIn dir ≠ [] := by
    intro hnil
    rw [hnil] at hlast
    exact absurd hlast (by decide)
  rw [← Path.join_append_slash (isAbsolute_append_json hids.2.1),
    ← Path.join_of_getLast hne (by rw [hlast]; decide) hids.1]
  rfl

theorem components_names
    (hids : Inward network account) :
    Path.components (Path.join network (account ++ lit ".json")) =
      Path.components network ++ Path.components (account ++ lit ".json") :=
  Path.components_join (isAbsolute_append_json hids.2.1)

/-- The components of the path are those of the directory of all credentials and those of the
ids. -/
theorem components_pathIn
    (hids : Inward network account)
    (dir : Text) :
    Path.components (pathIn dir network account) =
      Path.components (credentialsIn dir) ++
        (Path.components network ++ Path.components (account ++ lit ".json")) := by
  rw [pathIn_eq_of_inward hids, Path.components_append_slash, components_names hids]

theorem getLast?_append_json
    (account : Text) :
    (account ++ lit ".json").getLast? = some (chr 'n') := by
  rw [List.getLast?_append]
  rfl

/-- The last component of the path is an ordinary name. -/
theorem exists_components_json
    (account : Text) :
    ∃ front c, Path.components (account ++ lit ".json") = front ++ [c] ∧
      c ≠ Path.here ∧ c ≠ Path.up := by
  have hlast := getLast?_append_json account
  obtain ⟨c, -, hc, hcomponents⟩ := Path.exists_components_concat (p := account ++ lit ".json")
    (by simp [lit]) (by rw [hlast]; decide)
  rw [hlast] at hc
  refine ⟨_, c, hcomponents, ?_, ?_⟩
  · rintro rfl
    exact absurd hc (by decide)
  · rintro rfl
    exact absurd hc (by decide)

/-- The normal form of the path is that of the directory of all credentials and ordinary names. -/
theorem liesIn_pathIn
    (hids : Inward network account)
    (dir : Text) :
    Path.LiesIn (pathIn dir network account) (credentialsIn dir) := by
  have hdot : ∃ c ∈ credentialsIn dir, c ≠ Path.slash := by
    refine ⟨_, List.mem_of_getLast? (getLast?_credentialsIn dir), by decide⟩
  have hkept : Path.cancel (Path.isAbsolute (credentialsIn dir)) []
      (Path.components (credentialsIn dir)) ≠ [] := by
    rw [components_credentialsIn, Path.cancel_concat (by decide) (by decide)]
    exact List.cons_ne_nil _ _
  have hnames : Path.cancel true []
      (Path.components (Path.join network (account ++ lit ".json"))) ≠ [] := by
    obtain ⟨front, c, hc, hhere, hup⟩ := exists_components_json account
    rw [components_names hids, hc, ← List.append_assoc, Path.cancel_concat hhere hup]
    exact List.cons_ne_nil _ _
  refine ⟨(Path.cancel true []
    (Path.components (Path.join network (account ++ lit ".json")))).reverse, by simpa using hnames,
    fun c hc => ⟨?_, Path.ordinary_of_mem_cancel (by simp) (List.mem_reverse.mp hc)⟩, ?_⟩
  · rcases Path.mem_of_mem_cancel (List.mem_reverse.mp hc) with h | h
    · cases h
    · exact Path.isComponent_of_mem h
  · rw [pathIn_eq_of_inward hids]
    refine Path.normalize_append_of_staysBelow hdot hkept ?_ hnames
    rw [components_names hids]
    exact hids.2.2

/-! ## The places -/

/-- The names of a path that goes on from the directory of all credentials as the ids do. -/
theorem names_pathIn
    (hids : Inward network account)
    (dir : Text) :
    ∃ names, (Route.ofText (pathIn dir network account)).names =
        (Route.ofText (credentialsIn dir)).names ++ names ∧
      names ≠ [] ∧ Path.staysBelow 0 names = true := by
  obtain ⟨front, c, hc, -, -⟩ := exists_components_json account
  refine ⟨(Path.components network ++ Path.components (account ++ lit ".json")).map
    FileName.settled, ?_, by simp [hc], ?_⟩
  · rw [Route.ofText, Route.ofText, components_pathIn hids, List.map_append]
  · rw [Path.staysBelow_map FileName.settled_eq_here_iff FileName.settled_eq_up_iff]
    exact hids.2.2

theorem startOf_pathIn
    (hids : Inward network account)
    (dir : Text)
    (t : FileTree) :
    t.startOf (Route.ofText (pathIn dir network account)) =
      t.startOf (Route.ofText (credentialsIn dir)) := by
  apply startOf_ofText_eq
  rw [pathIn_eq_of_inward hids]
  apply Path.isAbsolute_append
  intro hnil
  have hlast := getLast?_credentialsIn dir
  rw [hnil] at hlast
  exact absurd hlast (by decide)

/-- Names that go on from those of the directory of all credentials and stay below it lead to a
place inside. -/
theorem prefix_reach_append
    {names : List Name}
    (hbelow : Path.staysBelow 0 names = true)
    (t : FileTree)
    (dir : Text) :
    t.placeOf (credentialsIn dir) <+:
      reach (t.startOf (Route.ofText (credentialsIn dir)))
        ((Route.ofText (credentialsIn dir)).names ++ names) := by
  rw [reach_append]
  exact prefix_reach hbelow _

theorem prefix_placeOf_pathIn
    (hids : Inward network account)
    (t : FileTree)
    (dir : Text) :
    t.placeOf (credentialsIn dir) <+: t.placeOf (pathIn dir network account) := by
  obtain ⟨names, hnames, -, hbelow⟩ := names_pathIn hids dir
  rw [placeOf.eq_def t (pathIn dir network account), startOf_pathIn hids, hnames]
  exact prefix_reach_append hbelow t dir

/-- The directory of a pair's file is inside the directory of all credentials as well. -/
theorem prefix_placeOf_dirName
    (hids : Inward network account)
    (t : FileTree)
    (dir : Text) :
    t.placeOf (credentialsIn dir) <+: t.placeOf (Path.dirName (pathIn dir network account)) := by
  obtain ⟨names, hnames, hne, hbelow⟩ := names_pathIn hids dir
  have hlast : (pathIn dir network account).getLast? = some (chr 'n') := by
    rw [pathIn, Path.getLast?_join (by simp [lit]) (isAbsolute_append_json hids.2.1),
      getLast?_append_json]
  obtain ⟨c, -, -, hcomponents⟩ := Path.exists_components_concat (p := pathIn dir network account)
    (by rintro hnil; simp [hnil] at hlast) (by rw [hlast]; decide)
  have hfront : (Route.ofText (Path.dirName (pathIn dir network account))).names =
      (Route.ofText (credentialsIn dir)).names ++ names.dropLast := by
    have hall := congrArg List.dropLast hnames
    rw [List.dropLast_append_of_ne_nil hne, Route.ofText, hcomponents, List.map_append,
      List.map_singleton, List.dropLast_concat] at hall
    exact hall
  have hstart : t.startOf (Route.ofText (Path.dirName (pathIn dir network account))) =
      t.startOf (Route.ofText (credentialsIn dir)) := by
    rw [← startOf_pathIn hids dir t]
    exact startOf_ofText_eq (Path.isAbsolute_dirName _)
  have hfrontBelow : Path.staysBelow 0 names.dropLast = true := by
    rw [← List.dropLast_concat_getLast hne] at hbelow
    exact Path.staysBelow_of_append hbelow
  rw [placeOf.eq_def t (Path.dirName (pathIn dir network account)), hstart, hfront]
  exact prefix_reach_append hfrontBelow t dir

/-- A place that the path of a pair's file passes is inside the directory of all credentials or on
the way to it. -/
theorem passes_or_inside
    (hids : Inward network account)
    (h : t.Passes (pathIn dir network account) place) :
    t.Passes (credentialsIn dir) place ∨ t.placeOf (credentialsIn dir) <+: place := by
  obtain ⟨names, hnames, -, hbelow⟩ := names_pathIn hids dir
  obtain ⟨front, hfront, rfl⟩ := h
  rw [hnames] at hfront
  rw [startOf_pathIn hids]
  rcases List.prefix_or_prefix_of_prefix hfront (List.prefix_append _ names) with
    hupper | ⟨lower, rfl⟩
  · exact .inl ⟨front, hupper, rfl⟩
  · obtain ⟨rest, rfl⟩ := (List.prefix_append_right_inj _).mp hfront
    exact .inr (prefix_reach_append (Path.staysBelow_of_append hbelow) t dir)

/-- From a base directory without parents every place on the way is an ancestor. -/
theorem prefix_placeOf_of_passes
    (hdir : Path.up ∉ Path.components dir)
    (h : t.Passes (credentialsIn dir) place) :
    place <+: t.placeOf (credentialsIn dir) := by
  obtain ⟨front, ⟨back, hnames⟩, rfl⟩ := h
  rw [placeOf, ← hnames, reach_append]
  refine prefix_reach (Path.staysBelow_of_notMem fun hmem => ?_) _
  have hup : Path.up ∈ (Route.ofText (credentialsIn dir)).names :=
    hnames ▸ List.mem_append_right front hmem
  rw [Route.ofText, components_credentialsIn, List.mem_map] at hup
  obtain ⟨c, hc, hsettled⟩ := hup
  rw [(FileName.settled_eq_up_iff c).mp hsettled, List.mem_append, List.mem_singleton] at hc
  exact hc.elim hdir (by decide)

/-- The temporary file for a pair's file is inside the directory of all credentials. -/
theorem prefix_place_of_makeScratch
    (hids : Inward network account)
    (hwf : t.WellFormed)
    (hlinks : t.LinkFree)
    {scratch : Scratch}
    (h : t.makeScratch (FileAct.scratchDirectory t (pathIn dir network account)) =
      .ok (scratch, t')) :
    t.placeOf (credentialsIn dir) <+: scratch.place := by
  obtain ⟨directory, name, hdirectory, hplace⟩ := directoryAt_of_makeScratch h
  have hupper : upperPath (pathIn dir network account) =
      Path.dirName (pathIn dir network account) := by
    rw [upperPath, if_neg]
    intro hnil
    rcases Path.dirName_cases (pathIn dir network account) with ⟨-, hslash⟩ | ⟨hne, -⟩
    · rw [pathIn_eq_of_inward hids] at hslash
      exact hslash (by simp)
    · exact hne hnil
  have heq := placeOf_of_directoryAt hwf hlinks hdirectory
  rw [scratchDirectory_eq, placeOf_absolute hwf, hupper] at heq
  rw [hplace, ← heq]
  exact (prefix_placeOf_dirName hids t dir).trans (List.prefix_append _ _)

/-! ## Writes -/

variable
  {s : Store}
  {p : KeyPair}
  {w : World}

/-- The base directory hangs on the home directory's name only. -/
theorem base_fst_congr
    {v : World}
    (hhome : v.home = w.home)
    (s : Store) :
    (s.base.run v).1 = (s.base.run w).1 := by
  rw [base]
  split
  · rfl
  · rw [homeDir, run_bind_of_ok (run_get v), run_bind_of_ok (run_get w), hhome]
    split <;> rfl

theorem exists_base_of_pathFor
    {path : Text}
    (h : (s.pathFor network account).run w = (.ok path, w)) :
    ∃ dir, (s.base.run w).1 = .ok dir ∧ path = pathIn dir network account := by
  obtain ⟨dir, w', hbase, hpath⟩ := run_bind_eq_ok_iff.mp h
  cases hpath
  exact ⟨dir, congrArg Prod.fst hbase, rfl⟩

/-- The tree that is made ready for a file has new directories where the path passes. -/
theorem paves_readyTree
    (hwf : w.tree.WellFormed)
    (hlinks : w.tree.LinkFree)
    (s : Store)
    (path : Text) :
    w.tree.Paves path (s.readyTree path w.tree) := by
  rw [readyTree]
  split
  · obtain ⟨hpaves, -⟩ :=
      FileAct.pavesOn_ensureDirectories (Path.dirName path) dirMode w.tree hwf hlinks
    exact hpaves.longer (isUpper_dirName path)
  · exact .refl _ path

/-- Directories that are made for a file are inside the directory of all credentials or on the way
to it. -/
theorem keeps_readyTree
    (hids : Inward network account)
    (hbase : (s.base.run w).1 = .ok dir)
    (hwf : w.tree.WellFormed)
    (hlinks : w.tree.LinkFree) :
    (s.bounds w).Keeps w.tree (s.readyTree (pathIn dir network account) w.tree) := by
  intro place
  rcases (paves_readyTree hwf hlinks s (pathIn dir network account)).get place with
    hsame | ⟨hnone, ⟨mode, hdir⟩, hpasses⟩
  · rw [hsame]
    exact .same
  · rw [hnone, hdir]
    rcases passes_or_inside hids hpasses with hway | hinside
    · exact .made ⟨dir, hbase, hway⟩
    · exact .inside ⟨dir, hbase, hinside⟩

/-- The file of a pair is inside the directory of all credentials. -/
theorem keeps_writeFile
    {b : Bounds}
    (hids : Inward network account)
    (hinside : ∀ place, t.placeOf (credentialsIn dir) <+: place → b.inside place)
    (hwf : t.WellFormed)
    (hlinks : t.LinkFree)
    (atomic : Bool)
    (p : KeyPair) :
    b.Keeps t ((writeFile (pathIn dir network account) atomic p).run t).2 := by
  have hplace := hinside _ (prefix_placeOf_pathIn hids t dir)
  cases atomic with
  | true =>
      change b.Keeps t ((FileAct.writeAtomic (pathIn dir network account) (contentOf p)).run t).2
      rcases FileAct.run_writeAtomic_error_or hwf (pathIn dir network account) (contentOf p) with
        ⟨fault, t', hrun, hsame⟩ | ⟨hcheck, ⟨directory, name, hadmits⟩, scratch, t₁, hmake⟩
      · rw [hrun]
        exact Bounds.keeps_unchanged hsame
      · obtain ⟨t', hrun, hb, -⟩ := FileAct.run_writeAtomic hwf hcheck hadmits hmake (contentOf p)
        rw [hadmits.placeOf_eq hwf hlinks] at hplace
        rw [hrun]
        exact Bounds.keeps_becomes hb hplace
  | false =>
      change b.Keeps t ((FileAct.writePlain (pathIn dir network account) fileMode fileMode
        (contentOf p)).run t).2
      rcases FileAct.run_writePlain_error_or t (pathIn dir network account) fileMode fileMode
          (contentOf p) with ⟨fault, hrun⟩ | ⟨hcheck, place, hopens⟩
      · rw [hrun]
        exact .refl b t
      · obtain ⟨serial, t', hrun, hb, -⟩ :=
          FileAct.run_writePlain hwf hcheck hopens fileMode fileMode (contentOf p)
        rw [hopens.placeOf_eq hwf hlinks] at hplace
        rw [hrun]
        exact Bounds.keeps_becomes hb hplace

/-- What is done to the tree when a pair is written to a path is the writing of the file and, if that
succeeds, the logging of it. -/
theorem keeps_writePair
    {b : Bounds}
    {path : Text}
    {atomic : Bool}
    (hfile : b.Keeps w.tree ((writeFile path atomic p).run w.tree).2)
    (hlogs : ∀ file serial,
      .file file serial ∈ w.loggers.handlersFor (Loggers.canonical loggerName) → b.logs serial) :
    b.Keeps w.tree ((writePair p path atomic).run w).2.tree := by
  rcases hrun : (writeFile path atomic p).run w.tree with ⟨r, t⟩
  rw [hrun] at hfile
  cases r with
  | error fault =>
      rw [writePair, run_bind_of_error (Act.run_files_of_error hrun)]
      exact hfile
  | ok =>
      rw [writePair, run_bind_of_ok (Act.run_files_of_ok hrun)]
      exact hfile.trans (Bounds.keeps_log (w := { w with tree := t })
        (r := ⟨Loggers.canonical loggerName, .info, wroteNote p path⟩) hlogs)

/-- A write of ids that stay inside the store keeps to its bounds, whether it succeeds or fails. -/
theorem keeps_write
    (hids : Inward network p.account)
    (hwf : w.tree.WellFormed)
    (hlinks : w.tree.LinkFree) :
    (s.bounds w).Keeps w.tree ((s.write p network).run w).2.tree := by
  rcases s.write_cases p network w with
    ⟨failure, -, hrun⟩ | ⟨path, hpath, hrun⟩
  · rw [hrun]
    exact .refl _ _
  · obtain ⟨dir, hbase, rfl⟩ := exists_base_of_pathFor hpath
    have hready := keeps_readyTree hids hbase hwf hlinks
    have hpaves := paves_readyTree hwf hlinks s (pathIn dir network p.account)
    rcases hrun with ⟨fault, -, hrun⟩ | hrun
    · rw [hrun]
      exact hready
    · rw [hrun]
      refine hready.trans (keeps_writePair (w := { w with tree := s.readyTree _ w.tree }) ?_
        fun file serial hmem => ⟨file, hmem⟩)
      refine keeps_writeFile (b := s.bounds w) hids (fun place hplace => ?_)
        (wellFormed_readyTree hwf s _) (hpaves.linkFree hlinks) s.atomicWrite p
      rw [placeOf_congr hpaves.workingDir] at hplace
      exact ⟨dir, hbase, hplace⟩

end Store

end Keybox

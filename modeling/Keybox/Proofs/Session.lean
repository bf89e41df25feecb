import Keybox.Proofs.World.Upkeep
import Keybox.Session

/-!
# What sessions keep

A step of a session is an action on its world, so it keeps what the action keeps, whether it answers
or fails. What the kinds of change to a world keep is kept by every step that makes no logger.

Whatever is done in a session, the tree of its world stays well-formed: files are changed only by
operations that keep it so, and log records only append to open files. So the tree of every session
that began with an empty working directory is well-formed.

**Results.** The actions on a world keep its tree well-formed, one lemma for each; a step of a
session does so; and by induction on the steps every session does.
-/

namespace Keybox

namespace World

/-- A world whose tree is well-formed. -/
def Orderly
    (w : World) : Prop :=
  w.tree.WellFormed

theorem preserves_files_orderly
    {α : Type}
    {act : FileAct α}
    (h : Preserves FileTree.WellFormed act) :
    Preserves Orderly (Act.files act) := by
  intro w hw
  have hact := h w.tree hw
  rw [Act.run_files]
  rcases hrun : act.run w.tree with ⟨r, t⟩
  rw [hrun] at hact
  cases r with
  | ok a =>
      exact hact
  | error fault =>
      exact hact

theorem kept_orderly : Kept Orderly where
  files := preserves_files_orderly
  deliver := by
    intro w hw r handler
    cases handler with
    | console =>
        rw [World.deliver]
        split <;> exact hw
    | file path serial =>
        simp only [World.deliver]
        split
        · exact hw
        · exact FileTree.WellFormed.append hw serial _
  loggers := fun hw _ => hw
  printLine := fun _ => preserves_modify fun _ hw => hw
  printError := fun _ => preserves_modify fun _ hw => hw

end World

open World (Orderly kept_orderly preserves_files_orderly)

namespace CommandLine

theorem preserves_run
    (words : List Text)
    (source : RandomSource) :
    Preserves Orderly (run words source) := by
  rw [run]
  split
  · exact preserves_runInvocation kept_orderly _ source
  · next stop _ =>
    cases stop with
    | help text =>
        exact Preserves.bind (preserves_modify fun _ hw => hw) fun _ => preserves_pure _
    | misuse text =>
        exact Preserves.bind (preserves_modify fun _ hw => hw) fun _ => preserves_pure _

end CommandLine

/-! ## Steps and sessions -/

/-- A step that may make a logger: it does nothing else, or it runs a command line. -/
def Step.makesLogger : Step → Bool
  | .makeLogger _ _ => true
  | .run _ _ => true
  | _ => false

namespace Session

/-- The session after some steps. -/
def after
    (s : Session) : List Step → Session
  | [] => s
  | step :: rest => (s.step step).2.after rest

variable
  {P : World → Prop}
  {s : Session}
  {α : Type}

theorem world_onWorld
    (act : Act α)
    (reply : World → α → Reply) :
    (s.onWorld act reply).2.world = (act.run s.world).2 := by
  rw [onWorld]
  rcases act.run s.world with ⟨r, w⟩
  cases r <;> rfl

theorem onWorld_of_error
    {act : Act α}
    {failure : Failure}
    (h : (act.run s.world).1 = .error failure)
    (reply : World → α → Reply) :
    (s.onWorld act reply).1 = .error failure := by
  rw [onWorld]
  rcases hrun : act.run s.world with ⟨r, w⟩
  rw [hrun] at h
  obtain rfl : r = .error failure := h
  rfl

theorem keeps_onWorld
    (hs : P s.world)
    {act : Act α}
    (hact : Preserves P act)
    (reply : World → α → Reply) :
    P (s.onWorld act reply).2.world := by
  rw [world_onWorld]
  exact hact s.world hs

theorem keeps_onStore
    (hs : P s.world)
    {act : Store → Act α}
    (hact : ∀ store, Preserves P (act store))
    (reply : α → Reply) :
    P (s.onStore act reply).2.world := by
  rw [onStore]
  split
  · exact keeps_onWorld hs (hact _) _
  · exact hs

theorem keeps_onPair
    (hs : P s.world)
    {act : KeyPair → Act Text}
    (hact : ∀ p, Preserves P (act p)) :
    P (s.onPair act).2.world := by
  rw [onPair]
  split
  · exact keeps_onWorld hs (hact _) _
  · exact hs

/-- A step that makes no logger keeps what no change ends but perhaps that of the loggers. -/
theorem keeps_step
    (hP : World.KeptInUse P)
    (hs : P s.world)
    {step : Step}
    (hstep : step.makesLogger = false) :
    P (s.step step).2.world := by
  cases step with
  | makeDirectory path =>
      exact keeps_onWorld hs (hP.files (FileAct.preserves_makeDirectories path _)) _
  | putFile path content mode =>
      exact keeps_onWorld hs (hP.files (FileAct.preserves_writePlain path mode _ content)) _
  | removeFile path =>
      exact keeps_onWorld hs (hP.files (FileAct.preserves_remove path)) _
  | makeLink path target =>
      exact keeps_onWorld hs (hP.files (FileAct.preserves_makeLink target path)) _
  | useStore store =>
      exact hs
  | useSettings settings =>
      rw [Session.step]
      split <;> exact hs
  | generate source account =>
      rw [Session.step]
      split <;> exact hs
  | usePair p =>
      exact hs
  | write network =>
      rw [Session.step]
      split
      · exact keeps_onStore hs (fun store => store.preserves_write hP _ network) _
      · exact hs
  | load network account =>
      exact keeps_onStore hs (fun store => store.preserves_load hP network account) _
  | pathFor network account =>
      exact keeps_onStore hs (fun store => store.preserves_pathFor network account) _
  | base =>
      exact keeps_onStore hs (fun store => store.preserves_base) _
  | home =>
      exact keeps_onWorld hs Store.preserves_homeDir _
  | writePair path atomic =>
      exact keeps_onPair hs fun p => Store.preserves_writePair hP p path atomic
  | readPair path account =>
      exact keeps_onWorld hs (Store.preserves_readPair hP path account) _
  | log name message level =>
      cases level with
      | none =>
          exact hs
      | some level =>
          exact keeps_onWorld hs (Act.preserves_log hP name level message) _
  | makeLogger name logFile =>
      cases hstep
  | run words source =>
      cases hstep

/-- A step keeps the tree well-formed. -/
theorem orderly_step
    (hs : s.world.Orderly)
    (step : Step) :
    (s.step step).2.world.Orderly := by
  cases step with
  | makeLogger name logFile =>
      exact keeps_onWorld hs (Act.preserves_makeLogger kept_orderly name logFile) _
  | run words source =>
      exact keeps_onWorld hs (CommandLine.preserves_run words source) _
  | _ =>
      exact keeps_step kept_orderly.toKeptInUse hs rfl

theorem orderly_after
    (hs : s.world.Orderly)
    (steps : List Step) :
    (s.after steps).world.Orderly := by
  induction steps generalizing s with
  | nil =>
      exact hs
  | cons step rest ih =>
      exact ih (orderly_step hs step)

/-- **Sessions keep trees well-formed.** Whatever steps a session has taken since it began in an
empty working directory, its tree is well-formed. -/
theorem wellFormed_after
    {workingDir : Place}
    (hnames : ∀ name ∈ workingDir, FileName.IsName name)
    (home clock : Text)
    (steps : List Step) :
    ((initial workingDir home clock).after steps).world.tree.WellFormed := by
  have hfirst : (initial workingDir home clock).world.Orderly := FileTree.wellFormed_fresh hnames
  exact orderly_after hfirst steps

end Session

end Keybox

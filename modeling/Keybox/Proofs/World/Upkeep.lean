import Keybox.CommandLine.Run
import Keybox.Proofs.FileTree.Upkeep

/-!
# What actions keep

The actions of the store and of the command line are made of few kinds of change to a world: work on
the files, a record given to a handler, new loggers, a line of output and a line on the console.
A property of worlds that each of these keeps is kept by all actions, one lemma for each. Only the
making of a logger changes the loggers, so all other actions keep a property of the loggers as well.
-/

namespace Keybox

namespace World

/-- A property of worlds that no kind of change ends but perhaps that of the loggers. -/
structure KeptInUse
    (P : World → Prop) : Prop where
  files : ∀ {α : Type} {act : FileAct α},
    Preserves FileTree.WellFormed act → Preserves P (Act.files act)
  deliver : ∀ {w : World}, P w → ∀ r handler, P (w.deliver r handler)
  printLine : ∀ t, Preserves P (Act.printLine t)
  printError : ∀ t, Preserves P (Act.printError t)

/-- A property of worlds that no kind of change ends. -/
structure Kept
    (P : World → Prop) : Prop extends KeptInUse P where
  loggers : ∀ {w : World}, P w → ∀ ls, P { w with loggers := ls }

variable {P : World → Prop}

theorem KeptInUse.log
    (hP : KeptInUse P)
    {w : World}
    (h : P w)
    (r : LogRecord) :
    P (w.log r) := by
  rw [World.log]
  generalize w.loggers.handlersFor r.name = handlers
  induction handlers generalizing w with
  | nil =>
      exact h
  | cons handler rest ih =>
      exact ih (hP.deliver h r handler)

end World

open World (Kept KeptInUse)

variable {P : World → Prop}

namespace Act

theorem preserves_ofExcept
    {α ε : Type}
    (failure : ε → Failure)
    (r : Except ε α) :
    Preserves P (ofExcept failure r) := by
  cases r with
  | ok a =>
      exact preserves_pure a
  | error e =>
      exact preserves_throw (failure e)

theorem preserves_log
    (hP : KeptInUse P)
    (name : Text)
    (level : Level)
    (message : Text) :
    Preserves P (log name level message) :=
  preserves_modify fun _ hw => hP.log hw _

theorem preserves_makeLogger
    (hP : Kept P)
    (name : Text)
    (logFile : Option Text) :
    Preserves P (makeLogger name logFile) := by
  refine Preserves.bind (preserves_modify fun _ hw => hP.loggers hw _) fun _ => ?_
  cases logFile with
  | none =>
      exact preserves_pure ()
  | some file =>
      refine preserves_get.bind fun w => ?_
      dsimp only
      split
      · exact preserves_pure ()
      · exact (hP.files (FileAct.preserves_openAppend _)).bind fun serial =>
          preserves_modify fun _ hw => hP.loggers hw _

end Act

namespace Store

theorem preserves_homeDir : Preserves P homeDir := by
  refine preserves_get.bind fun w => ?_
  split
  · exact preserves_pure _
  · exact preserves_throw _

theorem preserves_base
    (s : Store) :
    Preserves P s.base := by
  rw [base]
  split
  · exact preserves_pure _
  · exact preserves_homeDir

theorem preserves_pathFor
    (s : Store)
    (network account : Text) :
    Preserves P (s.pathFor network account) :=
  s.preserves_base.bind fun _ => preserves_pure _

theorem preserves_writePair
    (hP : KeptInUse P)
    (p : KeyPair)
    (path : Text)
    (atomic : Bool) :
    Preserves P (writePair p path atomic) := by
  have hfile : Preserves FileTree.WellFormed (writeFile path atomic p) := by
    cases atomic with
    | false =>
        exact FileAct.preserves_writePlain path fileMode fileMode (contentOf p)
    | true =>
        exact FileAct.preserves_writeAtomic path (contentOf p)
  refine (hP.files hfile).bind fun _ => ?_
  exact (Act.preserves_log hP _ _ _).bind fun _ => preserves_pure path

theorem preserves_readPair
    (hP : KeptInUse P)
    (path expected : Text) :
    Preserves P (readPair path expected) := by
  refine (hP.files (FileAct.preserves_read path)).bind fun content => ?_
  split
  · exact (Act.preserves_log hP _ _ _).bind fun _ => preserves_pure _
  · split
    · exact (Act.preserves_log hP _ _ _).bind fun _ => preserves_throw _
    · exact preserves_throw _

theorem preserves_write
    (hP : KeptInUse P)
    (s : Store)
    (p : KeyPair)
    (network : Text) :
    Preserves P (s.write p network) := by
  refine (s.preserves_pathFor network p.account).bind fun path => ?_
  split
  · exact (hP.files (FileAct.preserves_ensureDirectories _ dirMode)).bind fun _ =>
      preserves_writePair hP p path s.atomicWrite
  · exact preserves_writePair hP p path s.atomicWrite

theorem preserves_load
    (hP : KeptInUse P)
    (s : Store)
    (network account : Text) :
    Preserves P (s.load network account) :=
  (s.preserves_pathFor network account).bind fun path => preserves_readPair hP path account

end Store

namespace CommandLine

theorem preserves_settingsOf
    (hP : KeptInUse P)
    (i : Invocation) :
    Preserves P (settingsOf i) := by
  refine Preserves.map ?_ (withOptions i)
  split
  · exact (hP.files (FileAct.preserves_read _)).bind fun content =>
      Act.preserves_ofExcept _ _
  · exact preserves_pure _

theorem preserves_printLines
    (hP : KeptInUse P)
    (lines : List Text) :
    Preserves P (printLines lines) := by
  induction lines with
  | nil =>
      exact preserves_pure ()
  | cons t rest ih =>
      exact (hP.printLine t).bind fun _ => ih

theorem preserves_carryOut
    (hP : KeptInUse P)
    (s : Store)
    (network : Text)
    (i : Invocation)
    (source : RandomSource) :
    Preserves P (carryOut s network i source) := by
  rw [carryOut]
  split
  · exact (Act.preserves_ofExcept _ _).bind fun p =>
      (s.preserves_write hP p network).bind fun path => preserves_printLines hP _
  · exact (s.preserves_load hP network i.account).bind fun p => preserves_printLines hP _
  · exact (s.preserves_pathFor network i.account).bind fun path => preserves_printLines hP _

theorem preserves_openLog
    (hP : Kept P)
    (s : Settings) :
    Preserves P (openLog s) := by
  rw [openLog]
  split
  · exact preserves_pure ()
  · exact Act.preserves_makeLogger hP _ _

theorem preserves_runWith
    (hP : Kept P)
    (s : Settings)
    (i : Invocation)
    (source : RandomSource) :
    Preserves P (runWith s i source) := by
  refine (preserves_openLog hP s).bind fun _ => Preserves.tryCatch ?_ fun failure => ?_
  · exact (preserves_carryOut hP.toKeptInUse _ _ i source).bind fun _ => preserves_pure 0
  · split
    · exact (hP.printError _).bind fun _ => preserves_pure 1
    · exact preserves_throw failure

theorem preserves_runInvocation
    (hP : Kept P)
    (i : Invocation)
    (source : RandomSource) :
    Preserves P (runInvocation i source) := by
  have hsettings := (preserves_settingsOf hP.toKeptInUse i).map some
  refine Preserves.bind (hsettings.tryCatch fun failure => ?_) fun s? => ?_
  · split
    · exact (hP.printError _).bind fun _ => preserves_pure none
    · exact preserves_throw failure
  · cases s? with
    | none =>
        exact preserves_pure 1
    | some s =>
        exact preserves_runWith hP s i source

end CommandLine

end Keybox

import Keybox.Proofs.KeyPair.Reread
import Keybox.Proofs.Store.Contents

/-!
# A store is a map

A run of writes and loads, each through a store at the same base directory, gives the answers of a
map from networks and accounts to pairs: a write is always done, and a load gives the pair written
last for the network and the account, or finds no file if there was none. The stores may write in
either way, differently for each call.

**Results.** One call keeps the tree one that holds what was written, and answers like the map. The
answers of a whole run follow by induction on its calls.
-/

namespace Keybox

namespace World

/-- A record that only consoles get changes neither the files nor the loggers. -/
theorem log_of_console
    (w : World)
    {r : LogRecord}
    (h : ∀ handler ∈ w.loggers.handlersFor r.name, handler = .console) :
    (w.log r).tree = w.tree ∧ (w.log r).loggers = w.loggers := by
  rw [log]
  generalize w.loggers.handlersFor r.name = handlers at h
  induction handlers generalizing w with
  | nil =>
      exact ⟨rfl, rfl⟩
  | cons handler rest ih =>
      obtain rfl := h handler List.mem_cons_self
      have hfirst : (w.deliver r .console).tree = w.tree ∧
          (w.deliver r .console).loggers = w.loggers := by
        rw [deliver]
        split <;> exact ⟨rfl, rfl⟩
      obtain ⟨htree, hloggers⟩ :=
        ih (w.deliver r .console) fun other hother => h other (List.mem_cons_of_mem _ hother)
      exact ⟨htree.trans hfirst.1, hloggers.trans hfirst.2⟩

end World

namespace Store

/-! ## Calls and their answers -/

/-- A call of a store, with the way in which that store writes. -/
inductive Call where
  | write (atomic : Bool) (pair : KeyPair) (network : Text)
  | load (atomic : Bool) (network account : Text)

/-- What a call gives. -/
inductive Answer where
  | wrote (path : Text)
  | loaded (pair : KeyPair)

/-- The action of a call, through a store at a base directory that makes missing directories. -/
def Call.act
    (base : Text) : Call → Act Answer
  | .write atomic p network => .wrote <$> (Store.mk (some base) atomic true).write p network
  | .load atomic network account =>
      .loaded <$> (Store.mk (some base) atomic true).load network account

/-- The answers of calls, each in the world that the one before it left. -/
def answers
    (base : Text) : List Call → World → List (Except Failure Answer)
  | [], _ => []
  | call :: rest, w => ((call.act base).run w).1 :: answers base rest ((call.act base).run w).2

/-- What was written after a call. -/
def Call.writesAfter
    (writes : Writes) : Call → Writes
  | .write _ p network => (network, p) :: writes
  | .load _ _ _ => writes

/-- The answer to a call after what was written before it. -/
def Call.mapAnswer
    (base : Text)
    (writes : Writes) : Call → Except Failure Answer
  | .write _ p network => .ok (.wrote (pathIn base network p.account))
  | .load _ network account =>
      match writes.last? network account with
      | some p => .ok (.loaded p.reread)
      | none => .error (.file (.system .noEntry (pathIn base network account) none))

/-- The answers to calls after what was written before them. -/
def mapAnswers
    (base : Text) : List Call → Writes → List (Except Failure Answer)
  | [], _ => []
  | call :: rest, writes =>
      call.mapAnswer base writes :: mapAnswers base rest (call.writesAfter writes)

/-- A call that the claim of a map is made for: its file can be named, the pair is accepted, and the
names of so many temporary files fit. -/
def Call.Admissible
    (t : FileTree)
    (base : Text)
    (bound : Nat) : Call → Prop
  | .write atomic p network =>
      Addressable base network p.account ∧ p.Accepted ∧
        (atomic = true → ScratchFits t base network p.account bound)
  | .load _ network account => Addressable base network account

theorem ScratchFits.mono
    {t t' : FileTree}
    {base network account : Text}
    {bound bound' : Nat}
    (h : ScratchFits t base network account bound)
    (hworking : t'.workingDir = t.workingDir)
    (hle : bound' ≤ bound) :
    ScratchFits t' base network account bound' := by
  intro n hn
  have hfits := h n (Nat.le_trans hn hle)
  rwa [FileAct.scratchDirectory, FileTree.workingPath, ← hworking] at hfits

theorem Call.Admissible.mono
    {t t' : FileTree}
    {base : Text}
    {bound bound' : Nat}
    {call : Call}
    (h : call.Admissible t base bound)
    (hworking : t'.workingDir = t.workingDir)
    (hle : bound' ≤ bound) :
    call.Admissible t' base bound' := by
  cases call with
  | write atomic p network =>
      obtain ⟨haddress, haccepted, hscratch⟩ := h
      exact ⟨haddress, haccepted, fun hatomic => (hscratch hatomic).mono hworking hle⟩
  | load atomic network account =>
      exact h

/-! ## One call -/

/-- A world in which what was written is held and only consoles get the store's records. -/
structure Keeps
    (w : World)
    (base : Text)
    (place : Place)
    (writes : Writes) : Prop where
  holds : Holds w.tree base place writes
  accepted : ∀ write ∈ writes, write.2.Accepted
  console : ∀ handler ∈ w.loggers.handlersFor (Loggers.canonical loggerName), handler = .console

variable
  {w w' : World}
  {base network account : Text}
  {place : Place}
  {writes : Writes}

theorem Keeps.log
    (h : Keeps w base place writes)
    (level : Level)
    (message : Text) :
    Keeps (w.log ⟨Loggers.canonical loggerName, level, message⟩) base place writes ∧
      (w.log ⟨Loggers.canonical loggerName, level, message⟩).tree = w.tree := by
  obtain ⟨htree, hloggers⟩ :=
    w.log_of_console (r := ⟨Loggers.canonical loggerName, level, message⟩) h.console
  refine ⟨⟨?_, h.accepted, ?_⟩, htree⟩
  · rw [htree]
    exact h.holds
  · rw [hloggers]
    exact h.console

theorem writePair_of_ok
    {p : KeyPair}
    {path : Text}
    {atomic : Bool}
    {t : FileTree}
    (hfile : (writeFile path atomic p).run w.tree = (.ok (), t)) :
    (writePair p path atomic).run w =
      (.ok path, World.log { w with tree := t }
        ⟨Loggers.canonical loggerName, .info, wroteNote p path⟩) := by
  rw [writePair, run_bind_of_ok (Act.run_files_of_ok hfile)]
  rfl

/-- A write is done: it gives the path and leaves one pair more. -/
theorem Keeps.run_write
    (h : Keeps w base place writes)
    {p : KeyPair}
    (haccepted : p.Accepted)
    (haddress : Addressable base network p.account)
    {atomic : Bool}
    (hscratch : atomic = true → ScratchFits w.tree base network p.account writes.length) :
    ∃ w', ((Store.mk (some base) atomic true).write p network).run w =
        (.ok (pathIn base network p.account), w') ∧
      Keeps w' base place ((network, p) :: writes) ∧ w'.tree.workingDir = w.tree.workingDir := by
  obtain ⟨t₁, hdirs, hholds₁, hdir, hworking₁⟩ := h.holds.run_ensureDirectories haddress
  obtain ⟨t₂, hfile, hholds₂, hworking₂⟩ := hholds₁.run_writeFile haddress hdir
    fun hatomic => (hscratch hatomic).mono hworking₁ (Nat.le_refl _)
  have hkeeps : Keeps { w with tree := t₂ } base place ((network, p) :: writes) := by
    refine ⟨hholds₂, ?_, h.console⟩
    intro write hwrite
    rcases List.mem_cons.mp hwrite with rfl | hwrite
    · exact haccepted
    · exact h.accepted write hwrite
  obtain ⟨hlogged, htree⟩ := hkeeps.log .info (wroteNote p (pathIn base network p.account))
  refine ⟨_, ?_, hlogged, ?_⟩
  · have hpath : ((Store.mk (some base) atomic true).pathFor network p.account).run w =
        (.ok (pathIn base network p.account), w) := rfl
    have hensure : (Act.files (FileAct.ensureDirectories
        (Path.dirName (pathIn base network p.account)) dirMode)).run w =
        (.ok (), { w with tree := t₁ }) := Act.run_files_of_ok hdirs
    rw [Store.write, run_bind_of_ok hpath]
    dsimp only
    rw [if_pos rfl, run_bind_of_ok hensure]
    exact writePair_of_ok (w := { w with tree := t₁ }) hfile
  · rw [htree]
    exact hworking₂.trans hworking₁

/-- A load of what was written gives the pair written last and changes nothing that is kept. -/
theorem Keeps.run_load_written
    (h : Keeps w base place writes)
    (haddress : Addressable base network account)
    {p : KeyPair}
    (hlast : writes.last? network account = some p)
    (atomic : Bool) :
    ∃ w', ((Store.mk (some base) atomic true).load network account).run w = (.ok p.reread, w') ∧
      Keeps w' base place writes ∧ w'.tree = w.tree := by
  obtain ⟨hmem, rfl⟩ := Writes.mem_of_last? hlast
  obtain ⟨hlogged, htree⟩ :=
    h.log .debug (loadedNote p.account (pathIn base network p.account))
  refine ⟨_, ?_, hlogged, htree⟩
  have hpath : ((Store.mk (some base) atomic true).pathFor network p.account).run w =
      (.ok (pathIn base network p.account), w) := rfl
  have hread := Act.run_files_of_ok (h.holds.run_read_written haddress hlast)
  have hdocument := (h.accepted _ hmem).ofDocument_json
    (Text.unpaired_of_scalar haddress.accountId.scalar) (some (pathIn base network p.account))
  rw [Store.load, run_bind_of_ok hpath, readPair, run_bind_of_ok hread, contentOf, hdocument]
  rfl

/-- A load of what was not written finds no file. -/
theorem Keeps.run_load_unwritten
    (h : Keeps w base place writes)
    (haddress : Addressable base network account)
    (hlast : writes.last? network account = none)
    (atomic : Bool) :
    ((Store.mk (some base) atomic true).load network account).run w =
      (.error (.file (.system .noEntry (pathIn base network account) none)), w) := by
  have hpath : ((Store.mk (some base) atomic true).pathFor network account).run w =
      (.ok (pathIn base network account), w) := rfl
  have hread := Act.run_files_of_error (h.holds.run_read_unwritten haddress hlast)
  rw [Store.load, run_bind_of_ok hpath, readPair, run_bind_of_error hread]

/-- A call is answered like the map answers it, and what is kept afterwards is what was written. -/
theorem Keeps.run_call
    (h : Keeps w base place writes)
    {call : Call}
    (hcall : call.Admissible w.tree base writes.length) :
    ∃ w', (call.act base).run w = (call.mapAnswer base writes, w') ∧
      Keeps w' base place (call.writesAfter writes) ∧ w'.tree.workingDir = w.tree.workingDir := by
  cases call with
  | write atomic p network =>
      obtain ⟨haddress, haccepted, hscratch⟩ := hcall
      obtain ⟨w', hrun, hkeeps, hworking⟩ := h.run_write haccepted haddress hscratch
      refine ⟨w', ?_, hkeeps, hworking⟩
      rw [Call.act, run_map_of_ok hrun, Call.mapAnswer]
  | load atomic network account =>
      rw [Call.act, Call.mapAnswer]
      cases hlast : writes.last? network account with
      | none =>
          refine ⟨w, ?_, h, rfl⟩
          rw [run_map_of_error (h.run_load_unwritten hcall hlast atomic)]
      | some p =>
          obtain ⟨w', hrun, hkeeps, htree⟩ := h.run_load_written hcall hlast atomic
          refine ⟨w', ?_, hkeeps, congrArg FileTree.workingDir htree⟩
          rw [run_map_of_ok hrun]

theorem Call.length_writesAfter_le
    (call : Call)
    (writes : Writes) :
    (call.writesAfter writes).length ≤ writes.length + 1 := by
  cases call with
  | write atomic p network =>
      exact Nat.le_refl _
  | load atomic network account =>
      exact Nat.le_succ _

/-! ## Runs -/

/-- The answers of a run are those of the map. The names of temporary files that a run can need are
bounded by the writes before it and its own calls together. -/
theorem Keeps.answers_eq
    (h : Keeps w base place writes)
    {calls : List Call}
    (hcalls : ∀ call ∈ calls, call.Admissible w.tree base (writes.length + calls.length)) :
    answers base calls w = mapAnswers base calls writes := by
  induction calls generalizing w writes with
  | nil =>
      rfl
  | cons call rest ih =>
      have hcall := (hcalls call List.mem_cons_self).mono rfl (Nat.le_add_right _ _)
      obtain ⟨w', hrun, hkeeps, hworking⟩ := h.run_call hcall
      have hrest : ∀ other ∈ rest, other.Admissible w'.tree base
          ((call.writesAfter writes).length + rest.length) := by
        intro other hother
        refine (hcalls other (List.mem_cons_of_mem call hother)).mono hworking ?_
        have hle := call.length_writesAfter_le writes
        rw [List.length_cons]
        omega
      rw [answers, mapAnswers, hrun, ih hkeeps hrest]

/-- A world with a base directory that nothing is stored in yet, in a tree without links, where the
store's records go to no file. -/
structure Site
    (w : World)
    (base : Text)
    (place : Place) : Prop where
  wellFormed : w.tree.WellFormed
  noLinks : ∀ q target, w.tree.get? q ≠ some (.link target)
  fileName : FileFault.checkPath base = .ok ()
  directory : w.tree.directoryAt base = .ok place
  vacant : w.tree.get? (credentialsPlace place) = none
  console : ∀ handler ∈ w.loggers.handlersFor (Loggers.canonical loggerName), handler = .console

theorem Site.keeps
    (h : Site w base place) :
    Keeps w base place [] := by
  have hbase := FileTree.leadsTo_of_directoryAt h.noLinks h.fileName h.directory
  exact ⟨holds_nil h.wellFormed hbase h.vacant, by simp, h.console⟩

/-- **A store is a map.** At a base directory that nothing is stored in yet, any writes and loads
are answered like a map from networks and accounts to pairs answers them: each write succeeds, and
each load gives the pair of the last write for its network and account, or fails for want of a file
if there was none. A write for another network or account makes no difference to a load. The pair
that is loaded has the texts of the one that was written and their raw keys; it is the one that was
written if that is what its record gives. -/
theorem answers_eq_mapAnswers
    {calls : List Call}
    (hsite : Site w base place)
    (hcalls : ∀ call ∈ calls, call.Admissible w.tree base calls.length) :
    answers base calls w = mapAnswers base calls [] ∧
      (∀ (n network account : Text) (p : KeyPair) (writes : Writes),
        ¬ (n = network ∧ p.account = account) →
          Writes.last? network account ((n, p) :: writes) = writes.last? network account) ∧
      ∀ (p : KeyPair) (source : Option Text),
        KeyPair.decode p.record.members p.account source = .ok p → p.reread = p := by
  refine ⟨hsite.keeps.answers_eq ?_, ?_, fun p source hp => KeyPair.reread_eq_self hp⟩
  · intro call hcall
    rw [List.length_nil, Nat.zero_add]
    exact hcalls call hcall
  · intro n network account p writes hne
    exact Writes.last?_cons_of_ne hne writes

/-! ## A run -/

/-- A world whose working directory is the empty root. -/
def emptyWorld : World :=
  World.initial [] [] (lit "12:00")

theorem site_emptyWorld :
    Site emptyWorld (lit ".") [] := by
  have hget : ∀ q, emptyWorld.tree.get? q =
      if q <+: [] then some (.dir FileTree.plainDirMode) else none := FileTree.get?_fresh []
  refine ⟨FileTree.wellFormed_fresh (by simp), ?_, rfl, rfl, rfl, ?_⟩
  · intro q target hlink
    rw [hget] at hlink
    split at hlink <;> cases hlink
  · intro handler hhandler
    have hhandlers : emptyWorld.loggers.handlersFor (Loggers.canonical loggerName) =
        [.console] := by
      decide
    rw [hhandlers] at hhandler
    exact List.mem_singleton.mp hhandler

theorem accepted_ofSeedIn
    (slot : Slot)
    (seed : Seed)
    (account : Text) :
    (KeyPair.ofSeedIn slot seed account).Accepted :=
  ⟨_, KeyPair.decode_record_ofSeedIn slot seed account none⟩

/-- A pair of an account with the name of a temporary file. -/
def scratchPair : KeyPair :=
  KeyPair.ofSeedIn .secretKey Seed.zero (lit ".tmp-00000000")

def alicePair : KeyPair :=
  KeyPair.ofSeedIn .privateKey Seed.zero (lit "alice")

/-- Two writes in one network, one in each way, and two loads, the last one of what was not
written. -/
def sampleCalls : List Call :=
  [.write false scratchPair (lit "main"), .write true alicePair (lit "main"),
    .load true (lit "main") (lit ".tmp-00000000"), .load false (lit "test") (lit "alice")]

theorem addressable_of_ascii
    {base network account : Text}
    (hnetwork : (network.all fun c => c.isAscii && c != Path.slash && c != 0) = true)
    (haccount : (account.all fun c => c.isAscii && c != Path.slash && c != 0) = true)
    (hspecial : network ≠ [] ∧ network ≠ Path.here ∧ network ≠ Path.up)
    (hfits : FileName.length network ≤ nameLimit ∧
      FileName.length (account ++ lit ".json") ≤ nameLimit ∧
        FileName.length (pathIn base network account) < pathLimit) :
    Addressable base network account :=
  ⟨isIdentifier_of_all hnetwork, isIdentifier_of_all haccount, hspecial, hfits.1, hfits.2.1,
    hfits.2.2⟩

theorem admissible_sampleCalls :
    ∀ call ∈ sampleCalls, call.Admissible emptyWorld.tree (lit ".") sampleCalls.length := by
  intro call hcall
  simp only [sampleCalls, List.mem_cons, List.not_mem_nil, or_false] at hcall
  have hfirst : Addressable (lit ".") (lit "main") (lit ".tmp-00000000") :=
    addressable_of_ascii (by decide) (by decide) (by decide) (by decide)
  have hsecond : Addressable (lit ".") (lit "main") (lit "alice") :=
    addressable_of_ascii (by decide) (by decide) (by decide) (by decide)
  have hscratch : ScratchFits emptyWorld.tree (lit ".") (lit "main") (lit "alice") 4 := by
    rw [ScratchFits]
    decide +kernel
  rcases hcall with rfl | rfl | rfl | rfl
  · exact ⟨hfirst, accepted_ofSeedIn _ _ _, fun hatomic => absurd hatomic (by simp)⟩
  · exact ⟨hsecond, accepted_ofSeedIn _ _ _, fun _ => hscratch⟩
  · exact hfirst
  · exact addressable_of_ascii (by decide) (by decide) (by decide) (by decide)

/-- What was written in either way is loaded again, also where the name of a temporary file is
taken, and what was not written is not found. -/
theorem answers_sampleCalls :
    answers (lit ".") sampleCalls emptyWorld =
      [.ok (.wrote (lit "./.near-credentials/main/.tmp-00000000.json")),
        .ok (.wrote (lit "./.near-credentials/main/alice.json")), .ok (.loaded scratchPair),
        .error (.file (.system .noEntry (lit "./.near-credentials/test/alice.json") none))] := by
  obtain ⟨hanswers, -, hreread⟩ := answers_eq_mapAnswers site_emptyWorld admissible_sampleCalls
  have hscratch : scratchPair.reread = scratchPair :=
    hreread scratchPair none (KeyPair.decode_record_ofSeedIn _ _ _ none)
  have hwritten : Writes.last? (lit "main") (lit ".tmp-00000000")
      [(lit "main", alicePair), (lit "main", scratchPair)] = some scratchPair := rfl
  have hunwritten : Writes.last? (lit "test") (lit "alice")
      [(lit "main", alicePair), (lit "main", scratchPair)] = none := rfl
  rw [hanswers]
  simp only [sampleCalls, mapAnswers, Call.mapAnswer, Call.writesAfter]
  rw [hwritten, hunwritten]
  dsimp only
  rw [hscratch]
  rfl

end Store

end Keybox

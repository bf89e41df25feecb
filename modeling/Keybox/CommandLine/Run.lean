import Keybox.CommandLine.Invocation
import Keybox.Store

/-!
# Running a command line

The settings come from the configuration file, if one is given, with the options on top. Whatever
makes them unusable is reported and ends the run with code one, as does every error of the store,
of the file system or of the environment while a command is carried out. Bad values that only show
then are not reported but passed on, and so is a log file that cannot be opened.
-/

namespace Keybox

namespace CommandLine

/-- The settings in a file. -/
def settingsIn (file : Text) : Act Settings := do
  let content ← Act.files (FileAct.read file)
  Act.ofExcept .settings (Settings.ofBytes content)

/-- Settings with the base directory of an invocation, if it gives one. -/
def withOptions (i : Invocation) (s : Settings) : Settings :=
  match i.baseDir with
  | some dir => { s with baseDir := some dir }
  | none => s

/-- The settings of an invocation. -/
def settingsOf (i : Invocation) : Act Settings :=
  withOptions i <$>
    match i.configFile with
    | some file => settingsIn file
    | none => pure Settings.default

/-- The network of an invocation: its own, else that of the settings. -/
def networkOf (i : Invocation) (s : Settings) : Text :=
  i.network.getD s.network

/-- The log file that settings name; an empty name counts as none. -/
def logFileOf (s : Settings) : Option Text :=
  match s.logFile with
  | some [] => none
  | file => file

/-- The families of failures that are reported when the settings cannot be had. -/
def reportsInSettings : Family → Bool
  | .system => true
  | .value => true
  | _ => false

/-- The families of failures that are reported when a command is carried out. -/
def reportsInCommand : Family → Bool
  | .value => false
  | _ => true

/-- What is printed about a pair that was generated. -/
def generatedLines (p : KeyPair) (path : Text) : List Text :=
  [lit "Key pair for " ++ p.account ++ lit " written to " ++ path,
    lit "public_key: " ++ p.publicKey]

/-- What is printed about a pair that was loaded. -/
def displayedLines (p : KeyPair) : List Text :=
  [lit "account_id: " ++ p.account, lit "public_key: " ++ p.publicKey]

/-- The line about settings that cannot be had. -/
def settingsErrorLine (failure : Failure) : Text :=
  lit "ERROR: cannot load config: " ++ failure.message

/-- The line about a command that failed. -/
def commandErrorLine (failure : Failure) : Text :=
  lit "ERROR: " ++ failure.message

/-- Prints lines of output. -/
def printLines : List Text → Act Unit
  | [] => pure ()
  | t :: rest => do
    Act.printLine t
    printLines rest

/-- Carries out a command on a store. -/
def carryOut (s : Store) (network : Text) (i : Invocation) (source : RandomSource) : Act Unit :=
  match i.command with
  | .generate => do
    let p ← Act.ofExcept .random (KeyPair.generate source i.account)
    let path ← s.write p network
    printLines (generatedLines p path)
  | .display => do
    let p ← s.load network i.account
    printLines (displayedLines p)
  | .locate => do
    let path ← s.pathFor network i.account
    printLines [path]

/-- Opens the log file of settings, if they name one. -/
def openLog (s : Settings) : Act Unit :=
  match logFileOf s with
  | none => pure ()
  | some file => Act.makeLogger Store.loggerName (some file)

/-- Runs an invocation with settings, to its exit code. -/
def runWith (s : Settings) (i : Invocation) (source : RandomSource) : Act Nat := do
  openLog s
  tryCatch
    (do
      carryOut s.store (networkOf i s) i source
      return 0)
    fun failure => do
      if reportsInCommand failure.family then
        Act.printError (commandErrorLine failure)
        return 1
      else throw failure

/-- Runs an invocation, to its exit code. -/
def runInvocation (i : Invocation) (source : RandomSource) : Act Nat := do
  let settings? ←
    tryCatch (some <$> settingsOf i) fun failure => do
      if reportsInSettings failure.family then
        Act.printError (settingsErrorLine failure)
        return none
      else throw failure
  match settings? with
  | none => return 1
  | some s => runWith s i source

/-- Runs a command line, to its exit code. -/
def run (words : List Text) (source : RandomSource) : Act Nat :=
  match Invocation.ofWords words with
  | .ok i => runInvocation i source
  | .error stop => do
    match stop with
    | .help text => modify fun w => { w with output := w.output ++ text }
    | .misuse text => modify fun w => { w with console := w.console ++ text }
    return stop.code

end CommandLine

end Keybox

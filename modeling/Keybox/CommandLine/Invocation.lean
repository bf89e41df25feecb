import Keybox.CommandLine.Grammar

/-!
# Invocations

What a command line asks the program to do: a command for an account, with the options that were
given. A line that asks for help, or that the grammar does not admit, stops with a text of its own.
-/

namespace Keybox

namespace CommandLine

/-- The three commands. -/
inductive Command where
  | generate
  | display
  | locate
deriving DecidableEq, Repr

namespace Command

/-- The word for a command. -/
def word : Command → Text
  | generate => lit "generate"
  | display => lit "show"
  | locate => lit "path"

/-- All commands. -/
def all : List Command :=
  [generate, display, locate]

/-- The command of a word. -/
def ofWord? (t : Text) : Option Command :=
  all.find? fun c => c.word == t

end Command

/-- What a command line asks for. An option that is given without content counts as not given. -/
structure Invocation where
  configFile : Option Text
  baseDir : Option Text
  command : Command
  account : Text
  network : Option Text
deriving DecidableEq

/-- Why there is nothing to carry out: help was asked for, or the line is wrong. -/
inductive Stop where
  | help (text : Text)
  | misuse (text : Text)
deriving DecidableEq

/-- The exit code of a stop. -/
def Stop.code : Stop → Nat
  | help _ => 0
  | misuse _ => 2

/-- The name the program goes by. -/
def program : Text :=
  lit "keystore"

/-- The name a command goes by. -/
def commandProgram (c : Command) : Text :=
  program ++ lit " " ++ c.word

/-- The name under which the configuration file is kept. -/
def configName : Text :=
  lit "config"

/-- The name under which the base directory is kept. -/
def baseDirName : Text :=
  lit "base_dir"

/-- The name under which the network is kept. -/
def networkName : Text :=
  lit "network"

/-- The switch that asks for help. -/
def helpSwitch : Switch :=
  ⟨[lit "-h", lit "--help"], none⟩

/-- The grammar before and including the command. -/
def mainGrammar : Grammar where
  switches :=
    [helpSwitch, ⟨[lit "--config"], some configName⟩, ⟨[lit "--base-dir"], some baseDirName⟩]
  positional := .command (lit "command")

/-- The grammar after a command. -/
def commandGrammar : Grammar where
  switches := [helpSwitch, ⟨[lit "--network"], some networkName⟩]
  positional := .word (lit "account_id")

/-- How the program is used. -/
def mainUsage : Text :=
  lit "usage: keystore [-h] [--config CONFIG] [--base-dir BASE_DIR]\n" ++
    lit "                \x7bgenerate,show,path\x7d ...\n"

/-- The help of the program. -/
def mainHelp : Text :=
  mainUsage ++
    lit "\nUnencrypted NEAR credentials store\n" ++
    lit "\npositional arguments:\n" ++
    lit "  \x7bgenerate,show,path\x7d\n" ++
    lit "    generate            Generate and store a new Ed25519 key pair\n" ++
    lit "    show                Load, verify and print the public key\n" ++
    lit "    path                Print the credentials file path\n" ++
    lit "\noptions:\n" ++
    lit "  -h, --help            show this help message and exit\n" ++
    lit "  --config CONFIG       JSON config file\n" ++
    lit "  --base-dir BASE_DIR   Base directory (default: home directory)\n"

/-- How a command is used. -/
def commandUsage (c : Command) : Text :=
  lit "usage: " ++ commandProgram c ++ lit " [-h] [--network NETWORK] account_id\n"

/-- The help of a command. -/
def commandHelp (c : Command) : Text :=
  commandUsage c ++
    lit "\npositional arguments:\n" ++
    lit "  account_id\n" ++
    lit "\noptions:\n" ++
    lit "  -h, --help         show this help message and exit\n" ++
    lit "  --network NETWORK  Network ID (default from config)\n"

/-- A stop over misuse. -/
def misuse (usage name message : Text) : Stop :=
  .misuse (usage ++ name ++ lit ": error: " ++ message ++ lit "\n")

/-- A stop for a reading of the main grammar. -/
def mainStop : Halt → Stop
  | .help => .help mainHelp
  | .error message => misuse mainUsage program message

/-- A stop for a reading of a command's grammar. -/
def commandStop (c : Command) : Halt → Stop
  | .help => .help (commandHelp c)
  | .error message => misuse (commandUsage c) (commandProgram c) message

/-- The error over a word that is no command. -/
def noCommand (word : Text) : Halt :=
  .error (lit "argument command: invalid choice: " ++ word.quoted ++ lit " (choose from " ++
    Text.join (lit ", ") (Command.all.map fun c => c.word.quoted) ++ lit ")")

/-- What a command line asks for. -/
def Invocation.ofWords (words : List Text) : Except Stop Invocation := do
  let main ← (mainGrammar.read words).mapError mainStop
  match main.positional.getD [] with
  | [] => .error (mainStop (noCommand []))
  | word :: rest =>
    match Command.ofWord? word with
    | none => .error (mainStop (noCommand word))
    | some c =>
      let sub ← (commandGrammar.read rest).mapError (commandStop c)
      match main.extras ++ sub.extras with
      | [] =>
        return {
          configFile := main.value? configName
          baseDir := main.value? baseDirName
          command := c
          account := (sub.positional.getD []).headD []
          network := sub.value? networkName }
      | extras =>
        .error (mainStop (.error
          (lit "unrecognized arguments: " ++ Text.join (lit " ") extras)))

end CommandLine

end Keybox

import Keybox.Base58
import Keybox.Binary64
import Keybox.Binary64.Shortest
import Keybox.CommandLine.Grammar
import Keybox.CommandLine.Invocation
import Keybox.CommandLine.Run
import Keybox.Ed25519
import Keybox.Failure
import Keybox.FileTree
import Keybox.FileTree.Fault
import Keybox.FileTree.Files
import Keybox.FileTree.Listing
import Keybox.FileTree.Operations
import Keybox.FileTree.Walk
import Keybox.Json
import Keybox.Json.Fault
import Keybox.Json.Reader
import Keybox.Json.Shown
import Keybox.Json.Unreadable
import Keybox.Json.Writer
import Keybox.KeyPair
import Keybox.KeyPair.Check
import Keybox.KeyPair.Document
import Keybox.KeyPair.Random
import Keybox.KeyPair.Rejection
import Keybox.KeyText
import Keybox.Log
import Keybox.Log.Clock
import Keybox.Numeral
import Keybox.Path
import Keybox.RawKey
import Keybox.Session
import Keybox.Settings
import Keybox.Sha512
import Keybox.Store
import Keybox.Text
import Keybox.Text.Blank
import Keybox.Text.FileName
import Keybox.Text.Printable
import Keybox.Text.Quoted
import Keybox.Text.Unencodable
import Keybox.Text.Utf8
import Keybox.World
import Keybox.Main
import Keybox.Proofs.Base58
import Keybox.Proofs.KeyText
import Keybox.Proofs.KeyText.Codec
import Keybox.Proofs.Except
import Keybox.Proofs.KeyPair.Acceptance
import Keybox.Proofs.Text.Utf8
import Keybox.Proofs.Json.Strings
import Keybox.Proofs.Json.Records
import Keybox.Proofs.Json.LongNumbers
import Keybox.Proofs.KeyPair.RoundTrip
import Keybox.Proofs.Text.Occurrence
import Keybox.Proofs.KeyPair.Messages
import Keybox.Proofs.KeyPair.Loading
import Keybox.Proofs.Action
import Keybox.Proofs.FileTree.Table
import Keybox.Proofs.FileTree.Files
import Keybox.Proofs.World.Concealment
import Keybox.Proofs.Store.Rejection
import Keybox.Proofs.Path
import Keybox.Proofs.Text.FileName
import Keybox.Proofs.FileTree.WellFormed
import Keybox.Proofs.FileTree.Walk
import Keybox.Proofs.FileTree.Steps
import Keybox.Proofs.FileTree.Scratch
import Keybox.Proofs.FileTree.Writing
import Keybox.Proofs.FileTree.Written
import Keybox.Proofs.FileTree.LinkFree
import Keybox.Proofs.FileTree.Directories
import Keybox.Proofs.FileTree.Growth
import Keybox.Proofs.FileTree.Cleanup
import Keybox.Proofs.FileTree.Upkeep
import Keybox.Proofs.KeyPair.Reread
import Keybox.Proofs.KeyPair.Order
import Keybox.Proofs.KeyPair.Coherence
import Keybox.Proofs.KeyPair.Slots
import Keybox.Proofs.KeyPair.SameKey
import Keybox.Proofs.KeyPair.Unchecked
import Keybox.Proofs.Store.Contents
import Keybox.Proofs.Store.Refinement
import Keybox.Proofs.Store.FailedWrite
import Keybox.Proofs.Store.WrittenFile
import Keybox.Proofs.Store.Agreement
import Keybox.Proofs.World.Upkeep
import Keybox.Proofs.Log.Handlers
import Keybox.Proofs.CommandLine.Phases
import Keybox.Proofs.CommandLine.Exit
import Keybox.Proofs.Text.Quoted
import Keybox.Proofs.Path.Parts
import Keybox.Proofs.FileTree.Faults
import Keybox.Proofs.World.Containment
import Keybox.Proofs.Store.Secrecy
import Keybox.Proofs.Store.Places
import Keybox.Proofs.Session
import Keybox.Proofs.CommandLine.Commands
import Keybox.Proofs.CommandLine.Secrecy
import Keybox.Proofs.Json.Spelling
import Keybox.Proofs.Json.Numerals
import Keybox.Proofs.Json.Grammar
import Keybox.Proofs.Json.Reading
import Keybox.Proofs.KeyPair.Renderings
import Keybox.Proofs.KeyPair.Resaving
import Keybox.Proofs.Text.OneLine
import Keybox.Proofs.CommandLine.SettingsErrors
import Keybox.Proofs.Path.Containment
import Keybox.Proofs.FileTree.Reach
import Keybox.Proofs.Store.Containment
import Keybox.Proofs.CommandLine.Containment
import Keybox.Proofs.Session.Handlers
import Keybox.Proofs.Settings
import Keybox.Proofs.Log.Lineage
import Keybox.Proofs.Log.Delivery
import Keybox.Proofs.Session.Delivery

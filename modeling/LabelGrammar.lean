import LabelGrammar.CommandLine.Arguments
import LabelGrammar.CommandLine.Command
import LabelGrammar.CommandLine.Program
import LabelGrammar.CommandLine.Run
import LabelGrammar.Disk
import LabelGrammar.Document.Basic
import LabelGrammar.Document.Decode
import LabelGrammar.Document.Encode
import LabelGrammar.Document.Error
import LabelGrammar.Document.Fields
import LabelGrammar.Grammar.Kind
import LabelGrammar.Grammar.Rule
import LabelGrammar.Grammar.Tree
import LabelGrammar.Json.Basic
import LabelGrammar.Json.Printer
import LabelGrammar.Json.Reader
import LabelGrammar.Json.Token
import LabelGrammar.Main
import LabelGrammar.Number.Binary64
import LabelGrammar.Number.Digits
import LabelGrammar.Number.Float64
import LabelGrammar.Number.Limits
import LabelGrammar.Number.Shortest
import LabelGrammar.Proofs.CommandLine.Failures
import LabelGrammar.Proofs.CommandLine.Files
import LabelGrammar.Proofs.CommandLine.Looking
import LabelGrammar.Proofs.Document.Canonical
import LabelGrammar.Proofs.Document.Depth
import LabelGrammar.Proofs.Document.FirstProblem
import LabelGrammar.Proofs.Document.Records
import LabelGrammar.Proofs.Document.RoundTrip
import LabelGrammar.Proofs.Document.Storable
import LabelGrammar.Proofs.Forest.Basic
import LabelGrammar.Proofs.Forest.Edit
import LabelGrammar.Proofs.Forest.Inverse
import LabelGrammar.Proofs.Forest.Legal
import LabelGrammar.Proofs.Forest.Pruning
import LabelGrammar.Proofs.Json.Ordered
import LabelGrammar.Proofs.Json.Reader
import LabelGrammar.Proofs.Json.Steps
import LabelGrammar.Proofs.Json.Token
import LabelGrammar.Proofs.Session.Answers
import LabelGrammar.Proofs.Session.Corpus
import LabelGrammar.Proofs.Session.Failing
import LabelGrammar.Proofs.Session.Freshness
import LabelGrammar.Proofs.Session.Loading
import LabelGrammar.Proofs.Session.Refusals
import LabelGrammar.Proofs.Session.Requests
import LabelGrammar.Proofs.Session.Resets
import LabelGrammar.Proofs.Session.Restore
import LabelGrammar.Proofs.Session.Synchrony
import LabelGrammar.Proofs.Session.Table
import LabelGrammar.Proofs.Store.Directory
import LabelGrammar.Proofs.Store.Disk
import LabelGrammar.Proofs.Text.Lines
import LabelGrammar.Proofs.Tokenizer.Failures
import LabelGrammar.Proofs.Tokenizer.Matching
import LabelGrammar.Proofs.Tokenizer.Partition
import LabelGrammar.Proofs.Tokenizer.Regrouping
import LabelGrammar.Proofs.Tokenizer.Retry
import LabelGrammar.Proofs.Tokenizer.Sources
import LabelGrammar.Proofs.Tokenizer.Wire
import LabelGrammar.Proofs.Workspace.Admission
import LabelGrammar.Proofs.Workspace.Arena
import LabelGrammar.Proofs.Workspace.Atomicity
import LabelGrammar.Proofs.Workspace.Attachment
import LabelGrammar.Proofs.Workspace.Blocks
import LabelGrammar.Proofs.Workspace.Commuting
import LabelGrammar.Proofs.Workspace.Fields
import LabelGrammar.Proofs.Workspace.Import
import LabelGrammar.Proofs.Workspace.Insertion
import LabelGrammar.Proofs.Workspace.Moves
import LabelGrammar.Proofs.Workspace.Operations
import LabelGrammar.Proofs.Workspace.Reachable
import LabelGrammar.Proofs.Workspace.Refinement
import LabelGrammar.Proofs.Workspace.Represents
import LabelGrammar.Proofs.Workspace.Simulation
import LabelGrammar.Proofs.Workspace.Suited
import LabelGrammar.Proofs.Workspace.Traversal
import LabelGrammar.Proofs.Workspace.Undoing
import LabelGrammar.Proofs.Workspace.WellFormed
import LabelGrammar.Session.Corpus
import LabelGrammar.Session.Editor
import LabelGrammar.Session.Highlight
import LabelGrammar.Session.Numbering
import LabelGrammar.Session.Saved
import LabelGrammar.Session.Table
import LabelGrammar.Settings.Basic
import LabelGrammar.Settings.Environment
import LabelGrammar.Settings.Path
import LabelGrammar.Settings.Value
import LabelGrammar.Store.Basic
import LabelGrammar.Store.Directory
import LabelGrammar.Store.Faulty
import LabelGrammar.Store.Memory
import LabelGrammar.Text.Blank
import LabelGrammar.Text.Lines
import LabelGrammar.Text.Lower
import LabelGrammar.Text.Printable
import LabelGrammar.Text.Quoted
import LabelGrammar.Text.Utf8
import LabelGrammar.Tokenizer.Client
import LabelGrammar.Tokenizer.Match
import LabelGrammar.Tokenizer.Result
import LabelGrammar.Toml.Date
import LabelGrammar.Toml.Document
import LabelGrammar.Toml.Number
import LabelGrammar.Toml.Table
import LabelGrammar.Toml.Text
import LabelGrammar.Toml.Value
import LabelGrammar.Workspace.Attachment
import LabelGrammar.Workspace.Basic
import LabelGrammar.Workspace.Draw
import LabelGrammar.Workspace.Edit
import LabelGrammar.Yaml.Printer
import LabelGrammar.Yaml.Scalar

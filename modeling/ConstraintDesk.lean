import ConstraintDesk.Decimal.Binary64
import ConstraintDesk.Decimal.Shortest
import ConstraintDesk.Decode.Record
import ConstraintDesk.Desk.Submission
import ConstraintDesk.Desk.Dialect
import ConstraintDesk.Desk.Envelope
import ConstraintDesk.Desk.Session
import ConstraintDesk.Text.Basic
import ConstraintDesk.Json.Reader
import ConstraintDesk.Json.Value
import ConstraintDesk.Line.Document
import ConstraintDesk.Line.Parser
import ConstraintDesk.Line.Token
import ConstraintDesk.Machine.Bytes
import ConstraintDesk.Machine.Ending
import ConstraintDesk.Machine.Files
import ConstraintDesk.Machine.Glob
import ConstraintDesk.Machine.Regex
import ConstraintDesk.Machine.World
import ConstraintDesk.Model.Basic
import ConstraintDesk.Model.Encoding
import ConstraintDesk.Model.Validity
import ConstraintDesk.Reasoner.Diagnostics
import ConstraintDesk.Reasoner.Host
import ConstraintDesk.Reasoner.Run
import ConstraintDesk.Reasoner.Settings
import ConstraintDesk.Shell.Arithmetic
import ConstraintDesk.Shell.Builtin
import ConstraintDesk.Shell.Host
import ConstraintDesk.Shell.Reader
import ConstraintDesk.Shell.Run
import ConstraintDesk.Shell.Script
import ConstraintDesk.Shell.State
import ConstraintDesk.Text.Quoted
import ConstraintDesk.Tool.ByteMap
import ConstraintDesk.Tool.Condition
import ConstraintDesk.Tool.Dump
import ConstraintDesk.Tool.Edit
import ConstraintDesk.Tool.Expression
import ConstraintDesk.Tool.Folders
import ConstraintDesk.Tool.Instruction
import ConstraintDesk.Tool.Lines
import ConstraintDesk.Tool.Output
import ConstraintDesk.Tool.Search
import ConstraintDesk.Tool.Table
import ConstraintDesk.Tool.Work
import ConstraintDesk.Yaml.Event
import ConstraintDesk.Yaml.Fault
import ConstraintDesk.Yaml.Node
import ConstraintDesk.Yaml.Token
import ConstraintDesk.Yaml.Printer
import ConstraintDesk.Yaml.Record
import ConstraintDesk.Yaml.Resolve
import ConstraintDesk.Yaml.Scan.Block
import ConstraintDesk.Yaml.Scan.Plain
import ConstraintDesk.Yaml.Scan.Name
import ConstraintDesk.Yaml.Scan.Quoted
import ConstraintDesk.Yaml.Scan.Tokens
import ConstraintDesk.Yaml.Value
import ConstraintDesk.Proofs.Decimal.Rounding
import ConstraintDesk.Proofs.Decimal.Values
import ConstraintDesk.Proofs.Text.Lines
import ConstraintDesk.Proofs.Text.Words
import ConstraintDesk.Proofs.Decimal.Shortest
import ConstraintDesk.Proofs.Decimal.Spelling
import ConstraintDesk.Proofs.Decode.Record
import ConstraintDesk.Proofs.Desk.Remapping
import ConstraintDesk.Proofs.Desk.Translation
import ConstraintDesk.Proofs.Desk.Agreement
import ConstraintDesk.Proofs.Desk.Envelopes
import ConstraintDesk.Proofs.Desk.Operations
import ConstraintDesk.Proofs.Desk.Sessions
import ConstraintDesk.Proofs.Line.Identifiers
import ConstraintDesk.Proofs.Reasoner.Framing
import ConstraintDesk.Proofs.Line.Parsed
import ConstraintDesk.Proofs.Line.Reformatting
import ConstraintDesk.Proofs.Line.Derived
import ConstraintDesk.Proofs.Line.Refusals
import ConstraintDesk.Proofs.Line.Survival
import ConstraintDesk.Proofs.Text.Columns
import ConstraintDesk.Proofs.Json.Places
import ConstraintDesk.Proofs.Desk.Problems
import ConstraintDesk.Proofs.Text.Occurrence
import ConstraintDesk.Proofs.Yaml.Refusals
import ConstraintDesk.Proofs.Yaml.Messages
import ConstraintDesk.Proofs.Line.Alike
import ConstraintDesk.Proofs.Line.Feeds
import ConstraintDesk.Proofs.Text.Closing
import ConstraintDesk.Proofs.Line.Closing
import ConstraintDesk.Proofs.Line.Gathering
import ConstraintDesk.Proofs.Decode.KeyOrder
import ConstraintDesk.Proofs.Desk.KeyOrder
import ConstraintDesk.Proofs.Text.Pattern
import ConstraintDesk.Proofs.Reasoner.References
import ConstraintDesk.Proofs.Line.Shapes
import ConstraintDesk.Proofs.Line.Lexemes
import ConstraintDesk.Proofs.Line.Separators
import ConstraintDesk.Proofs.Line.Margins
import ConstraintDesk.Proofs.Line.Fillers
import ConstraintDesk.Proofs.Reasoner.Labels
import ConstraintDesk.Proofs.Reasoner.Seams
import ConstraintDesk.Proofs.Reasoner.Locations
import ConstraintDesk.Proofs.Reasoner.Journal
import ConstraintDesk.Proofs.Reasoner.Runs
import ConstraintDesk.Proofs.Text.Utf8
import ConstraintDesk.Proofs.Text.Ascii
import ConstraintDesk.Proofs.Desk.Explanation
import ConstraintDesk.Proofs.Text.Offsets
import ConstraintDesk.Proofs.Machine.Files
import ConstraintDesk.Proofs.Machine.Regex
import ConstraintDesk.Proofs.Shell.Patterns
import ConstraintDesk.Proofs.Shell.Host
import ConstraintDesk.Proofs.Tool.Lines

import MethodSearch.Bytecode.Access
import MethodSearch.Bytecode.JavaClass
import MethodSearch.Bytecode.JavaType
import MethodSearch.Bytecode.Opcode
import MethodSearch.Bytecode.Read
import MethodSearch.Catalog.Parse
import MethodSearch.Catalog.Print
import MethodSearch.Catalog.Read
import MethodSearch.Config
import MethodSearch.Console.Action
import MethodSearch.Console.Arguments
import MethodSearch.Console.Banner
import MethodSearch.Console.Files
import MethodSearch.Console.Host
import MethodSearch.Console.Lookup
import MethodSearch.Console.Machine
import MethodSearch.Console.Process
import MethodSearch.Console.Resolve
import MethodSearch.Console.Run
import MethodSearch.Expression.Basic
import MethodSearch.Expression.Bracket
import MethodSearch.Expression.Cursor
import MethodSearch.Expression.Escape
import MethodSearch.Expression.Fault
import MethodSearch.Expression.Group
import MethodSearch.Expression.Match
import MethodSearch.Expression.Meaning
import MethodSearch.Expression.Phrase
import MethodSearch.Expression.Reader
import MethodSearch.Json.Document
import MethodSearch.Json.Layout
import MethodSearch.Json.Numeral
import MethodSearch.Json.Print
import MethodSearch.Json.Quoted
import MethodSearch.Json.Reader
import MethodSearch.Log.Directive
import MethodSearch.Log.Record
import MethodSearch.Main
import MethodSearch.Pattern.Basic
import MethodSearch.Pattern.Scan
import MethodSearch.Proofs.Bytecode.Descriptors
import MethodSearch.Proofs.Bytecode.FlagNames
import MethodSearch.Proofs.Bytecode.Grammar
import MethodSearch.Proofs.Bytecode.Keywords
import MethodSearch.Proofs.Bytecode.Masks
import MethodSearch.Proofs.Bytecode.MethodGrammar
import MethodSearch.Proofs.Catalog.Classes
import MethodSearch.Proofs.Catalog.Encoding
import MethodSearch.Proofs.Catalog.Meaning
import MethodSearch.Proofs.Catalog.RoundTrip
import MethodSearch.Proofs.Catalog.Signatures
import MethodSearch.Proofs.Config.Overlay
import MethodSearch.Proofs.Console.Colour
import MethodSearch.Proofs.Console.Effects
import MethodSearch.Proofs.Console.Files
import MethodSearch.Proofs.Console.Inline
import MethodSearch.Proofs.Console.Quiet
import MethodSearch.Proofs.Console.Settings
import MethodSearch.Proofs.Console.Steps
import MethodSearch.Proofs.Json.Document
import MethodSearch.Proofs.Json.Indented
import MethodSearch.Proofs.Json.Kept
import MethodSearch.Proofs.Json.Members
import MethodSearch.Proofs.Json.Numeral
import MethodSearch.Proofs.Json.Printable
import MethodSearch.Proofs.Json.Quoted
import MethodSearch.Proofs.Json.Reader
import MethodSearch.Proofs.Json.Written
import MethodSearch.Proofs.Pattern.Disjoint
import MethodSearch.Proofs.Pattern.Encoding
import MethodSearch.Proofs.Pattern.Grammar
import MethodSearch.Proofs.Pattern.Markers
import MethodSearch.Proofs.Pattern.Occurrence
import MethodSearch.Proofs.Pattern.Packing
import MethodSearch.Proofs.Pattern.Rank
import MethodSearch.Proofs.Pattern.Slices
import MethodSearch.Proofs.Pattern.Tokens
import MethodSearch.Proofs.Pattern.Walk
import MethodSearch.Proofs.Report.Bounds
import MethodSearch.Proofs.Report.Faithful
import MethodSearch.Proofs.Report.RoundTrip
import MethodSearch.Proofs.Resolution.Chunks
import MethodSearch.Proofs.Resolution.Entries
import MethodSearch.Proofs.Resolution.Invariance
import MethodSearch.Proofs.Resolution.OneClass
import MethodSearch.Proofs.Resolution.Places
import MethodSearch.Proofs.Resolution.Schedules
import MethodSearch.Proofs.Resolution.SideBySide
import MethodSearch.Proofs.Resolution.Trail
import MethodSearch.Proofs.Resolution.Weakening
import MethodSearch.Proofs.Signature.Alike
import MethodSearch.Proofs.Signature.Checks
import MethodSearch.Proofs.Signature.Messages
import MethodSearch.Proofs.Signature.Outcome
import MethodSearch.Proofs.Signature.Weaker
import MethodSearch.Proofs.Text.Decoration
import MethodSearch.Proofs.Text.Digits
import MethodSearch.Proofs.Text.FirstFault
import MethodSearch.Proofs.Text.Numerals
import MethodSearch.Proofs.Text.Pieces
import MethodSearch.Proofs.Text.Runs
import MethodSearch.Report.Print
import MethodSearch.Report.Read
import MethodSearch.Report.Summary
import MethodSearch.Resolution.Location
import MethodSearch.Resolution.Resolve
import MethodSearch.Signature.Basic
import MethodSearch.Signature.Compare
import MethodSearch.Text.Blank
import MethodSearch.Text.Count
import MethodSearch.Text.Duration
import MethodSearch.Text.Plain
import MethodSearch.Text.Style

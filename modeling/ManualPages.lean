import ManualPages.Text.Blank
import ManualPages.Text.Split
import ManualPages.Text.Utf8
import ManualPages.Text.Visible
import ManualPages.Text.Quoted
import ManualPages.Number.Rounding
import ManualPages.Number.Binary64
import ManualPages.Number.Shortest
import ManualPages.Duration
import ManualPages.Json.Value
import ManualPages.Json.Syntax
import ManualPages.Json.Parser
import ManualPages.Number.Notation
import ManualPages.Document.Basic
import ManualPages.Document.Kind
import ManualPages.Document.Slot
import ManualPages.Document.Mismatch
import ManualPages.Document.Wire
import ManualPages.Document.Decode
import ManualPages.Path
import ManualPages.FileSystem
import ManualPages.Storage
import ManualPages.Document.Load
import ManualPages.Roff.Escape
import ManualPages.Roff.Font
import ManualPages.Roff.Line
import ManualPages.Signature
import ManualPages.TermIndex
import ManualPages.Numbering
import ManualPages.Page.State
import ManualPages.Page.Text
import ManualPages.Page.Body
import ManualPages.Calendar
import ManualPages.Options
import ManualPages.Page.Title
import ManualPages.Page.Render
import ManualPages.Json.Printer
import ManualPages.Conversion
import ManualPages.Report
import ManualPages.Command.Arguments
import ManualPages.Command.Run
import ManualPages.Main
import ManualPages.Proofs.Sequence
import ManualPages.Proofs.Text.Blank
import ManualPages.Proofs.Text.Split
import ManualPages.Proofs.Signature
import ManualPages.Proofs.Signature.Parts
import ManualPages.Proofs.Signature.Shown
import ManualPages.Proofs.Signature.Subscript
import ManualPages.Proofs.TermIndex
import ManualPages.Proofs.Roff.Lines
import ManualPages.Proofs.Roff.Font
import ManualPages.Proofs.Roff.Macro
import ManualPages.Proofs.Roff.Arguments
import ManualPages.Proofs.Roff.Token
import ManualPages.Proofs.Roff.Unescape
import ManualPages.Proofs.Roff.Escaped
import ManualPages.Proofs.Roff.Scan
import ManualPages.Proofs.Page.Setting
import ManualPages.Proofs.Page.Node
import ManualPages.Proofs.Page.Traversal
import ManualPages.Proofs.Page.LineEnd
import ManualPages.Proofs.Page.ControlLine
import ManualPages.Proofs.Page.Verbatim
import ManualPages.Proofs.Page.Skeleton
import ManualPages.Proofs.Page.WellFormed
import ManualPages.Proofs.Page.Visits
import ManualPages.Proofs.Page.Index
import ManualPages.Proofs.Page.Entries
import ManualPages.Proofs.Page.Counting
import ManualPages.Proofs.Page.Locality
import ManualPages.Proofs.Roff.Reading
import ManualPages.Proofs.Page.Printed
import ManualPages.Proofs.Page.Fonts
import ManualPages.Proofs.Page.Alike
import ManualPages.Proofs.Page.Header
import ManualPages.Proofs.Page.Title
import ManualPages.Proofs.Text.Utf8
import ManualPages.Proofs.Path.FileName
import ManualPages.Proofs.Path
import ManualPages.Proofs.FileSystem
import ManualPages.Proofs.Conversion.Writing
import ManualPages.Proofs.Conversion
import ManualPages.Proofs.Conversion.OutputPath
import ManualPages.Proofs.Command.Run
import ManualPages.Proofs.Command.Output
import ManualPages.Proofs.Json.Order
import ManualPages.Proofs.Document.Decode
import ManualPages.Proofs.Document.Slot
import ManualPages.Proofs.Document.RoundTrip
import ManualPages.Proofs.Document.Offence
import ManualPages.Proofs.Document.UnknownKind
import ManualPages.Proofs.Document.Pointer
import ManualPages.Proofs.Number.Nearest
import ManualPages.Proofs.Number.Binary64
import ManualPages.Proofs.Number.Decimal
import ManualPages.Proofs.Duration
import ManualPages.Proofs.Report
import ManualPages.Proofs.Page.Adjacent

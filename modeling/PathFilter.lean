import PathFilter.Decimal.Binary64
import PathFilter.Decimal.Layout
import PathFilter.Decimal.Shortest
import PathFilter.Filter
import PathFilter.Json.Configuration
import PathFilter.Json.Fault
import PathFilter.Json.Numeral
import PathFilter.Json.Record
import PathFilter.Json.Skip
import PathFilter.Json.Text
import PathFilter.Json.Value
import PathFilter.Json.Writer
import PathFilter.Kind
import PathFilter.Load
import PathFilter.Meaning
import PathFilter.Plan
import PathFilter.Proofs.Acceptance
import PathFilter.Proofs.CaseFolding
import PathFilter.Proofs.Complements
import PathFilter.Proofs.Composition
import PathFilter.Proofs.Edits
import PathFilter.Proofs.Examination
import PathFilter.Proofs.Json.Configuration
import PathFilter.Proofs.Json.Grammar
import PathFilter.Proofs.Json.Members
import PathFilter.Proofs.Json.Record
import PathFilter.Proofs.Json.RoundTrip
import PathFilter.Proofs.Json.Skip
import PathFilter.Proofs.Json.Text
import PathFilter.Proofs.Json.Unambiguous
import PathFilter.Proofs.Json.Value
import PathFilter.Proofs.Json.Writer
import PathFilter.Proofs.LetterCase
import PathFilter.Proofs.Outline
import PathFilter.Proofs.Script.Attempts
import PathFilter.Proofs.Script.ClosingQuote
import PathFilter.Proofs.Script.Document
import PathFilter.Proofs.Script.Entries
import PathFilter.Proofs.Script.Faults
import PathFilter.Proofs.Script.Grammar
import PathFilter.Proofs.Script.Lines
import PathFilter.Proofs.Script.Lockstep
import PathFilter.Proofs.Script.Loops
import PathFilter.Proofs.Script.Objections
import PathFilter.Proofs.Script.Reading
import PathFilter.Proofs.Segments
import PathFilter.Proofs.StoredScripts
import PathFilter.Proofs.Text.Lowering
import PathFilter.Proofs.Text.SmallLetters
import PathFilter.Proofs.Text.Utf8
import PathFilter.Proofs.Widening
import PathFilter.Script.Configuration
import PathFilter.Script.Fault
import PathFilter.Script.Layout
import PathFilter.Script.Quoted
import PathFilter.Script.Report
import PathFilter.Script.Section
import PathFilter.Text.Bytes
import PathFilter.Text.CaseTable
import PathFilter.Text.Lower
import PathFilter.Verdict
import PathFilter.Workspace

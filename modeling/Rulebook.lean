import Rulebook.Catalogue.Basic
import Rulebook.Catalogue.History
import Rulebook.Document.Basic
import Rulebook.Document.Json
import Rulebook.Fault
import Rulebook.Host.Object
import Rulebook.Host.Reading
import Rulebook.Host.Session
import Rulebook.Json.Basic
import Rulebook.Json.Fields
import Rulebook.Json.Lexeme
import Rulebook.Json.Numeral
import Rulebook.Json.Parser
import Rulebook.Json.Printer
import Rulebook.Json.Quoted
import Rulebook.Number.Binary64
import Rulebook.Number.Decimal
import Rulebook.Number.Literal
import Rulebook.Number.Scaling
import Rulebook.Number.Shortest
import Rulebook.Policy
import Rulebook.Proofs.Catalogue.History
import Rulebook.Proofs.Catalogue.Join
import Rulebook.Proofs.Catalogue.Lifetime
import Rulebook.Proofs.Catalogue.Limit
import Rulebook.Proofs.Catalogue.Report
import Rulebook.Proofs.Catalogue.Row
import Rulebook.Proofs.Catalogue.Trace
import Rulebook.Proofs.Collection
import Rulebook.Proofs.Collection.Except
import Rulebook.Proofs.Comparison
import Rulebook.Proofs.Comparison.Integer
import Rulebook.Proofs.Comparison.Quotes
import Rulebook.Proofs.Comparison.Whole
import Rulebook.Proofs.Document.Basic
import Rulebook.Proofs.Document.Conversion
import Rulebook.Proofs.Document.Json
import Rulebook.Proofs.Document.Nesting
import Rulebook.Proofs.Host.Dictionary
import Rulebook.Proofs.Host.Reading
import Rulebook.Proofs.Host.Report
import Rulebook.Proofs.Host.Session
import Rulebook.Proofs.Host.Verdict
import Rulebook.Proofs.Json.Lexeme
import Rulebook.Proofs.Json.Numeral
import Rulebook.Proofs.Json.Parser
import Rulebook.Proofs.Json.Quoted
import Rulebook.Proofs.Number.Decimal
import Rulebook.Proofs.Number.Literal
import Rulebook.Proofs.Number.Nearest
import Rulebook.Proofs.Number.Rounding
import Rulebook.Proofs.Number.Scaling
import Rulebook.Proofs.Number.Shortest
import Rulebook.Proofs.Provenance
import Rulebook.Proofs.Record
import Rulebook.Proofs.Record.Canonical
import Rulebook.Proofs.Report
import Rulebook.Proofs.Report.Json
import Rulebook.Proofs.Report.Matrix
import Rulebook.Proofs.Rule.Beginning
import Rulebook.Proofs.Rule.Chain
import Rulebook.Proofs.Rule.Count
import Rulebook.Proofs.Rule.Derivation
import Rulebook.Proofs.Rule.Descent
import Rulebook.Proofs.Rule.Failure
import Rulebook.Proofs.Rule.Layout
import Rulebook.Proofs.Rule.Leniency
import Rulebook.Proofs.Rule.Locality
import Rulebook.Proofs.Rule.Reading
import Rulebook.Proofs.Rule.Rendering
import Rulebook.Proofs.Rule.Tokens
import Rulebook.Proofs.Text.Bytes
import Rulebook.Proofs.Verdict
import Rulebook.Proofs.Verdict.Fields
import Rulebook.Proofs.Verdict.Formula
import Rulebook.Proofs.Verdict.Rearrangement
import Rulebook.Record
import Rulebook.Report
import Rulebook.Rule.Basic
import Rulebook.Rule.Cursor
import Rulebook.Rule.Join
import Rulebook.Rule.Token
import Rulebook.Text.Blank
import Rulebook.Text.Name
import Rulebook.Value
import Rulebook.Verdict

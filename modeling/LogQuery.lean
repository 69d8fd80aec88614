import LogQuery.Cache.Basic
import LogQuery.Cache.Operation
import LogQuery.CommandLine.Arguments
import LogQuery.CommandLine.Environment
import LogQuery.CommandLine.Program
import LogQuery.Compilation
import LogQuery.Field
import LogQuery.Filter
import LogQuery.Json.Basic
import LogQuery.Json.Document
import LogQuery.Json.Queries
import LogQuery.Json.Reports
import LogQuery.Json.Results
import LogQuery.Json.SchemaText
import LogQuery.Literal
import LogQuery.Main
import LogQuery.Number.Binary64
import LogQuery.Number.Decimal
import LogQuery.Number.FixedWidth
import LogQuery.Number.Layout
import LogQuery.Number.Shortest
import LogQuery.Position
import LogQuery.Proofs.Cache.Recency
import LogQuery.Proofs.Cache.Steps
import LogQuery.Proofs.Filter.Arrangement
import LogQuery.Proofs.Filter.Truth
import LogQuery.Proofs.Query.Canonical
import LogQuery.Proofs.Query.Derivation
import LogQuery.Proofs.Query.Grammar
import LogQuery.Proofs.Query.RoundTrip
import LogQuery.Proofs.Query.Verdict
import LogQuery.Proofs.Session.Compiling
import LogQuery.Proofs.Session.Transparency
import LogQuery.Proofs.Sql.Injection
import LogQuery.Proofs.Sql.Lexeme
import LogQuery.Proofs.Sql.Meaning
import LogQuery.Proofs.Sql.Placeholders
import LogQuery.Proofs.Sql.Predicate
import LogQuery.Proofs.Sql.Tokens
import LogQuery.Proofs.Text.Classes
import LogQuery.Proofs.Token.Account
import LogQuery.Proofs.Token.Printed
import LogQuery.Proofs.Token.PrintedField
import LogQuery.Proofs.Token.PrintedValue
import LogQuery.Query.Analysis
import LogQuery.Query.Basic
import LogQuery.Query.Fault
import LogQuery.Query.Outcome
import LogQuery.Query.Reading
import LogQuery.Report
import LogQuery.Schema
import LogQuery.Session
import LogQuery.Settings
import LogQuery.Sql.Condition
import LogQuery.Sql.Quoting
import LogQuery.Text.Alphabetic
import LogQuery.Text.Blank
import LogQuery.Text.CodeRange
import LogQuery.Text.Digest
import LogQuery.Text.Numeric
import LogQuery.Text.Quoted
import LogQuery.Text.Start
import LogQuery.Text.Word
import LogQuery.Token.Basic
import LogQuery.Token.Fault
import LogQuery.Token.Key
import LogQuery.Token.Piece
import LogQuery.Token.Tokenization
import LogQuery.Proofs.Query.Evaluation
import LogQuery.Proofs.Filter.Row
import LogQuery.Proofs.Query.Levels
import LogQuery.Proofs.Filter.Orderly
import LogQuery.Proofs.Query.Reprinting
import LogQuery.Proofs.Cache.History
import LogQuery.Proofs.Json.RoundTrip
import LogQuery.Proofs.Session.Modes
import LogQuery.Proofs.Token.Stretches
import LogQuery.Proofs.Query.Selection
import LogQuery.Proofs.Cache.Capacity
import LogQuery.Proofs.Query.Completion
import LogQuery.Proofs.Token.Respacing
import LogQuery.Proofs.Token.Lines
import LogQuery.Proofs.Token.Cuts
import LogQuery.Proofs.Query.Passage
import LogQuery.Proofs.Query.Order
import LogQuery.Proofs.Token.Keywords
import LogQuery.Proofs.Token.Literals
import LogQuery.Proofs.Query.Keys
import LogQuery.Proofs.Cache.Frame
import LogQuery.Proofs.Query.Cursor
import LogQuery.Proofs.Query.Returns
import LogQuery.Proofs.Query.Progress
import LogQuery.Proofs.Number.Numeral
import LogQuery.Proofs.Literal.Integers
import LogQuery.Proofs.Sql.Numerals
import LogQuery.Proofs.Schema.Wrappers

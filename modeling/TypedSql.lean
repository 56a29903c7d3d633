import TypedSql.Assoc
import TypedSql.Binary64.Basic
import TypedSql.Decimal.Layout
import TypedSql.Decimal.Numeral
import TypedSql.Decimal.Reading
import TypedSql.Decimal.Shortest
import TypedSql.Diagnostic.Code
import TypedSql.Diagnostic.Report
import TypedSql.Diagnostic.Snapshot
import TypedSql.Journal.Entry
import TypedSql.Json.Basic
import TypedSql.Json.Number
import TypedSql.Json.Reader
import TypedSql.Json.Writer
import TypedSql.Proofs.Binary64.Arithmetic
import TypedSql.Proofs.Binary64.Magnitude
import TypedSql.Proofs.Binary64.Rounding
import TypedSql.Proofs.Decimal.Shortest
import TypedSql.Proofs.Json.Documents
import TypedSql.Proofs.Json.Doubles
import TypedSql.Proofs.Json.Numerals
import TypedSql.Proofs.Json.Rereading
import TypedSql.Proofs.Json.Scaling
import TypedSql.Proofs.Json.Strings
import TypedSql.Proofs.Logic.Precedence
import TypedSql.Proofs.Logic.Truth
import TypedSql.Proofs.Record.Atomic
import TypedSql.Proofs.Record.Batch
import TypedSql.Proofs.Record.Casting
import TypedSql.Proofs.Record.Cell
import TypedSql.Proofs.Record.Copying
import TypedSql.Proofs.Record.Defaults
import TypedSql.Proofs.Record.Family
import TypedSql.Proofs.Record.Fingerprint
import TypedSql.Proofs.Record.Fitting
import TypedSql.Proofs.Record.Layer
import TypedSql.Proofs.Record.Merged
import TypedSql.Proofs.Record.Overlays
import TypedSql.Proofs.Record.Reading
import TypedSql.Proofs.Record.Rows
import TypedSql.Proofs.Record.Session
import TypedSql.Proofs.Record.Visitor
import TypedSql.Proofs.Statement.Alignment
import TypedSql.Proofs.Statement.Appending
import TypedSql.Proofs.Statement.Assignments
import TypedSql.Proofs.Statement.Compounds
import TypedSql.Proofs.Statement.Conditions
import TypedSql.Proofs.Statement.Copying
import TypedSql.Proofs.Statement.Dialect
import TypedSql.Proofs.Statement.Flattening
import TypedSql.Proofs.Statement.Frame
import TypedSql.Proofs.Statement.Grouping
import TypedSql.Proofs.Statement.Inlining
import TypedSql.Proofs.Statement.Insertion
import TypedSql.Proofs.Statement.Joining
import TypedSql.Proofs.Statement.Nulls
import TypedSql.Proofs.Statement.Opacity
import TypedSql.Proofs.Statement.Ordering
import TypedSql.Proofs.Statement.Parenthesizing
import TypedSql.Proofs.Statement.Rejection
import TypedSql.Proofs.Statement.Request
import TypedSql.Proofs.Statement.Safety
import TypedSql.Proofs.Statement.Versions
import TypedSql.Proofs.Text.Parts
import TypedSql.Proofs.Token.Boundaries
import TypedSql.Proofs.Token.Dashes
import TypedSql.Proofs.Token.Harmless
import TypedSql.Proofs.Token.Juncture
import TypedSql.Proofs.Token.Lexemes
import TypedSql.Proofs.Token.Literals
import TypedSql.Proofs.Token.Names
import TypedSql.Proofs.Token.Offsets
import TypedSql.Proofs.Token.Parentheses
import TypedSql.Proofs.Token.Quoting
import TypedSql.Proofs.Token.Segments
import TypedSql.Proofs.Token.Single
import TypedSql.Proofs.Token.Substitution
import TypedSql.Proofs.Tree.Flags
import TypedSql.Proofs.Tree.Induction
import TypedSql.Proofs.Tree.Leaves
import TypedSql.Proofs.Tree.Origin
import TypedSql.Proofs.Tree.Parallel
import TypedSql.Proofs.Tree.Part
import TypedSql.Proofs.Tree.Phrase
import TypedSql.Proofs.Tree.Redaction
import TypedSql.Proofs.Tree.Trimming
import TypedSql.Proofs.Tree.Writes
import TypedSql.Proofs.Tree.Written
import TypedSql.Proofs.Value.Agreement
import TypedSql.Proofs.Value.Doubles
import TypedSql.Proofs.Value.Extraction
import TypedSql.Proofs.Value.History
import TypedSql.Proofs.Value.Integers
import TypedSql.Proofs.Value.Snapshot
import TypedSql.Proofs.Value.Store
import TypedSql.Record.Family
import TypedSql.Record.InPlace
import TypedSql.Record.Model
import TypedSql.Record.ModelJournal
import TypedSql.Record.Operation
import TypedSql.Record.Row
import TypedSql.Record.Saving
import TypedSql.Record.Spec
import TypedSql.Record.SplitRow
import TypedSql.Record.Visitor
import TypedSql.Sql.Builder
import TypedSql.Sql.Column
import TypedSql.Sql.Compilation
import TypedSql.Sql.Criterion
import TypedSql.Sql.Cursor
import TypedSql.Sql.Emission
import TypedSql.Sql.Error
import TypedSql.Sql.Flags
import TypedSql.Sql.Fragment
import TypedSql.Sql.Literal
import TypedSql.Sql.Operator
import TypedSql.Sql.Rendering
import TypedSql.Sql.Settings
import TypedSql.Sql.Statement
import TypedSql.Sql.Step
import TypedSql.Sql.Token
import TypedSql.Sql.Tree
import TypedSql.Sql.Version
import TypedSql.Sql.Writing
import TypedSql.Text.Blank
import TypedSql.Value.Basic
import TypedSql.Value.Coercion
import TypedSql.Value.Edit
import TypedSql.Value.Kind
import TypedSql.Value.Snapshot
import TypedSql.Value.Store

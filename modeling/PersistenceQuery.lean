import PersistenceQuery.Binding.Binder
import PersistenceQuery.Binding.Bindings
import PersistenceQuery.Binding.Literal
import PersistenceQuery.Calendar.Clock
import PersistenceQuery.Calendar.Date
import PersistenceQuery.Calendar.Timestamp
import PersistenceQuery.Console.Command
import PersistenceQuery.Console.Run
import PersistenceQuery.Console.Style
import PersistenceQuery.Decimal.Binary64
import PersistenceQuery.Decimal.Layout
import PersistenceQuery.Decimal.Numeral
import PersistenceQuery.Decimal.Shortest
import PersistenceQuery.Exchange.Bindings
import PersistenceQuery.Exchange.Decode
import PersistenceQuery.Exchange.Encode
import PersistenceQuery.Exchange.Value
import PersistenceQuery.Fault
import PersistenceQuery.Json.Basic
import PersistenceQuery.Json.Printer
import PersistenceQuery.Json.Reader
import PersistenceQuery.Json.Token
import PersistenceQuery.Keyed
import PersistenceQuery.Main
import PersistenceQuery.Proofs.Binding.FreshName
import PersistenceQuery.Proofs.Binding.Literal
import PersistenceQuery.Proofs.Binding.Pass
import PersistenceQuery.Proofs.Query.Names
import PersistenceQuery.Proofs.Reading.Descent
import PersistenceQuery.Proofs.Reading.Distinct
import PersistenceQuery.Proofs.Reading.Grammar
import PersistenceQuery.Proofs.Reading.Integer
import PersistenceQuery.Proofs.Reading.Leftward
import PersistenceQuery.Proofs.Reading.Operand
import PersistenceQuery.Proofs.Reading.Readable
import PersistenceQuery.Proofs.Reading.Regrouped
import PersistenceQuery.Proofs.Rendering.Bindings
import PersistenceQuery.Proofs.Rendering.Emitted
import PersistenceQuery.Proofs.Rendering.Placeholders
import PersistenceQuery.Proofs.Rendering.Settled
import PersistenceQuery.Proofs.Rendering.Spelled
import PersistenceQuery.Proofs.Rendering.Standard
import PersistenceQuery.Proofs.Rendering.Written
import PersistenceQuery.Proofs.Text.Lexeme
import PersistenceQuery.Query.Build
import PersistenceQuery.Query.Expr
import PersistenceQuery.Query.Nodes
import PersistenceQuery.Query.Operator
import PersistenceQuery.Query.Part
import PersistenceQuery.Query.Path
import PersistenceQuery.Query.Shape
import PersistenceQuery.Query.Strength
import PersistenceQuery.Query.Value
import PersistenceQuery.Rendering.Dialect
import PersistenceQuery.Rendering.Draft
import PersistenceQuery.Rendering.Emission
import PersistenceQuery.Rendering.Rendered
import PersistenceQuery.Rendering.Script
import PersistenceQuery.Rendering.Writing
import PersistenceQuery.Settings
import PersistenceQuery.Settings.File
import PersistenceQuery.Sorted
import PersistenceQuery.Text.Blank
import PersistenceQuery.Text.Digits
import PersistenceQuery.Text.Quoted
import PersistenceQuery.Toml.DateTime
import PersistenceQuery.Toml.Document
import PersistenceQuery.Toml.Reader
import PersistenceQuery.Toml.Token
import PersistenceQuery.Proofs.Query.Tour
import PersistenceQuery.Proofs.Rendering.Yield
import PersistenceQuery.Proofs.Rendering.Outcome
import PersistenceQuery.Proofs.Rendering.Transparent
import PersistenceQuery.Proofs.Rendering.Quotations
import PersistenceQuery.Proofs.Rendering.Modes
import PersistenceQuery.Proofs.Printing.Printer
import PersistenceQuery.Proofs.Printing.Prints
import PersistenceQuery.Proofs.Query.Induction
import PersistenceQuery.Proofs.Printing.Printed
import PersistenceQuery.Proofs.Query.Occurrence
import PersistenceQuery.Proofs.Query.Place
import PersistenceQuery.Proofs.Query.Rules
import PersistenceQuery.Proofs.Text.Unquoted
import PersistenceQuery.Proofs.Text.Neat
import PersistenceQuery.Proofs.Text.Quoted
import PersistenceQuery.Proofs.Rendering.Clear
import PersistenceQuery.Proofs.Rendering.Balance
import PersistenceQuery.Proofs.Rendering.Guarded
import PersistenceQuery.Proofs.Rendering.Minus
import PersistenceQuery.Proofs.Calendar.Reading
import PersistenceQuery.Proofs.Exchange.Reordered
import PersistenceQuery.Proofs.Exchange.Value
import PersistenceQuery.Proofs.Exchange.Forms
import PersistenceQuery.Proofs.Exchange.RoundTrip
import PersistenceQuery.Proofs.Rendering.Counterpart
import PersistenceQuery.Proofs.Rendering.Keywords
import PersistenceQuery.Proofs.Rendering.Twins
import PersistenceQuery.Proofs.Rendering.Supplied
import PersistenceQuery.Proofs.Query.Outline
import PersistenceQuery.Proofs.Rendering.Unseen
import PersistenceQuery.Proofs.Binding.Calls
import PersistenceQuery.Proofs.Binding.Tokens
import PersistenceQuery.Proofs.Rendering.Scripts
import PersistenceQuery.Proofs.Query.Joins
import PersistenceQuery.Proofs.Rendering.Laid
import PersistenceQuery.Proofs.Rendering.Joins
import PersistenceQuery.Proofs.Rendering.Stance
import PersistenceQuery.Proofs.Rendering.Neat
import PersistenceQuery.Proofs.Decimal.Positional
import PersistenceQuery.Proofs.Binding.Determined
import PersistenceQuery.Proofs.Reading.Fewest
import PersistenceQuery.Proofs.Reading.Parentheses
import PersistenceQuery.Proofs.Rendering.Refusals
import PersistenceQuery.Proofs.Binding.LiteralWord
import PersistenceQuery.Proofs.Json.Scanned
import PersistenceQuery.Proofs.Json.Printed
import PersistenceQuery.Proofs.Exchange.Parameters
import PersistenceQuery.Proofs.Exchange.Integers
import PersistenceQuery.Proofs.Binding.Search
import PersistenceQuery.Proofs.Query.Path
import PersistenceQuery.Proofs.Rendering.Configured
import PersistenceQuery.Proofs.Rendering.Gaps

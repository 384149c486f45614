import FlightCurve.Arithmetic
import FlightCurve.Arithmetic.Double
import FlightCurve.Arithmetic.Grid
import FlightCurve.CommandLine
import FlightCurve.Compilation
import FlightCurve.CompileError
import FlightCurve.Console.CellWidth
import FlightCurve.Console.Emoji
import FlightCurve.Console.Emoji.Names
import FlightCurve.Console.Markup
import FlightCurve.Console.SampleReport
import FlightCurve.Console.Table
import FlightCurve.Console.Text
import FlightCurve.Curve
import FlightCurve.Curve.Sampling
import FlightCurve.Curve.Submission
import FlightCurve.Curve.Trajectory
import FlightCurve.Folder
import FlightCurve.Function
import FlightCurve.Function.Evaluation
import FlightCurve.Function.OfTree
import FlightCurve.Function.Printer
import FlightCurve.Log
import FlightCurve.Main
import FlightCurve.Number.Decimal
import FlightCurve.Number.Double
import FlightCurve.Number.Numeral
import FlightCurve.Outcome
import FlightCurve.Proofs.Alignment
import FlightCurve.Proofs.Appending
import FlightCurve.Proofs.Arrays
import FlightCurve.Proofs.Caret
import FlightCurve.Proofs.Chains
import FlightCurve.Proofs.Checked
import FlightCurve.Proofs.Clause
import FlightCurve.Proofs.Comparison
import FlightCurve.Proofs.Cursor
import FlightCurve.Proofs.Cursor.Expressions
import FlightCurve.Proofs.Cursor.Sources
import FlightCurve.Proofs.Cursor.Steps
import FlightCurve.Proofs.CurveExpression
import FlightCurve.Proofs.Dangling
import FlightCurve.Proofs.Display
import FlightCurve.Proofs.DistinctKeys
import FlightCurve.Proofs.Documents
import FlightCurve.Proofs.Doubles
import FlightCurve.Proofs.EuclideanDivision
import FlightCurve.Proofs.EuclideanDivision.Rounded
import FlightCurve.Proofs.Exponents
import FlightCurve.Proofs.FewestDigits
import FlightCurve.Proofs.FirstFault
import FlightCurve.Proofs.FirstFault.Clause
import FlightCurve.Proofs.FirstFault.CurveExpression
import FlightCurve.Proofs.Flattening
import FlightCurve.Proofs.Folds
import FlightCurve.Proofs.Grammar
import FlightCurve.Proofs.Histories
import FlightCurve.Proofs.Identities
import FlightCurve.Proofs.Layers
import FlightCurve.Proofs.Lines
import FlightCurve.Proofs.LongestMatch
import FlightCurve.Proofs.Lossless
import FlightCurve.Proofs.Machine
import FlightCurve.Proofs.Machine.Contracts
import FlightCurve.Proofs.Machine.Expressions
import FlightCurve.Proofs.Machine.Looking
import FlightCurve.Proofs.Machine.Safety
import FlightCurve.Proofs.Machine.Sources
import FlightCurve.Proofs.Meaning
import FlightCurve.Proofs.Naming
import FlightCurve.Proofs.Nesting
import FlightCurve.Proofs.Occurrences
import FlightCurve.Proofs.Offences
import FlightCurve.Proofs.Places
import FlightCurve.Proofs.Positions
import FlightCurve.Proofs.Printing
import FlightCurve.Proofs.Progress
import FlightCurve.Proofs.Quotients
import FlightCurve.Proofs.Reading
import FlightCurve.Proofs.Related
import FlightCurve.Proofs.Renaming
import FlightCurve.Proofs.Renaming.Compiling
import FlightCurve.Proofs.Renaming.InPlace
import FlightCurve.Proofs.Renaming.Reading
import FlightCurve.Proofs.Respacing
import FlightCurve.Proofs.Resuming
import FlightCurve.Proofs.Rounding
import FlightCurve.Proofs.Sampling
import FlightCurve.Proofs.Scanning
import FlightCurve.Proofs.Session
import FlightCurve.Proofs.Settings
import FlightCurve.Proofs.StartingPoint
import FlightCurve.Proofs.StatusLine
import FlightCurve.Proofs.Stopping
import FlightCurve.Proofs.Submission
import FlightCurve.Proofs.Substitution
import FlightCurve.Proofs.Surface
import FlightCurve.Proofs.Traces
import FlightCurve.Proofs.Truncation
import FlightCurve.Proofs.Unambiguous
import FlightCurve.Proofs.Unsigned
import FlightCurve.Proofs.WellScoped
import FlightCurve.Proofs.Wrapping
import FlightCurve.Proofs.Writing
import FlightCurve.Reference
import FlightCurve.Scope
import FlightCurve.Settings
import FlightCurve.Text.Blank
import FlightCurve.Text.DecimalDigit
import FlightCurve.Text.Hexadecimal
import FlightCurve.Text.Lines
import FlightCurve.Text.Printable
import FlightCurve.Text.Quoted
import FlightCurve.Token
import FlightCurve.Token.Lexer
import FlightCurve.Toml.Document
import FlightCurve.Toml.Scalar
import FlightCurve.Toml.Value
import FlightCurve.Tree
import FlightCurve.Tree.Parser
import FlightCurve.Vocabulary

import TagScript.CommandLine.Options
import TagScript.CommandLine.Report
import TagScript.Decimal.Basic
import TagScript.Decimal.Layout
import TagScript.Decimal.Reader
import TagScript.Decimal.Shortest
import TagScript.Device.Console
import TagScript.Device.Disk
import TagScript.Device.Snapshot
import TagScript.Error
import TagScript.Literal
import TagScript.Machine.Basic
import TagScript.Machine.Builtin
import TagScript.Machine.Draws
import TagScript.Machine.Eval
import TagScript.Machine.Function
import TagScript.Machine.Session
import TagScript.Main
import TagScript.Operator
import TagScript.Program.Basic
import TagScript.Program.Expression
import TagScript.Program.Mentions
import TagScript.Program.Outline
import TagScript.Program.Parsed
import TagScript.Program.Statement
import TagScript.Proofs.ExpressionGrammar
import TagScript.Proofs.Reading
import TagScript.Registry.Basic
import TagScript.Registry.Json
import TagScript.Scope
import TagScript.Table
import TagScript.Text.Blank
import TagScript.Text.Hidden
import TagScript.Text.Quoted
import TagScript.Text.Radix
import TagScript.Token.Basic
import TagScript.Token.Lexer
import TagScript.TypeWord
import TagScript.Value.Basic
import TagScript.Value.Operation
import TagScript.Proofs.ReadExpression
import TagScript.Proofs.StatementGrammar
import TagScript.Proofs.ReadStatement
import TagScript.Proofs.Activation
import TagScript.Proofs.Course
import TagScript.Proofs.Run
import TagScript.Proofs.Import
import TagScript.Proofs.ImportStack
import TagScript.Proofs.ScopeUse
import TagScript.Proofs.LocalScopes
import TagScript.Proofs.TokenPattern
import TagScript.Proofs.Segment
import TagScript.Proofs.LineCount
import TagScript.Proofs.Tiling
import TagScript.Proofs.RoundTrip
import TagScript.Proofs.Rounding
import TagScript.Proofs.Shortest
import TagScript.Proofs.Numeral
import TagScript.Proofs.Relabel
import TagScript.Proofs.Lookahead
import TagScript.Proofs.ExpressionLookahead
import TagScript.Proofs.StatementLookahead
import TagScript.Proofs.Alike
import TagScript.Proofs.FunctionTable
import TagScript.Proofs.Related
import TagScript.Proofs.Comparison
import TagScript.Proofs.Isolation
import TagScript.Proofs.Layout
import TagScript.Proofs.Termination
import TagScript.Proofs.ErrorChain
import TagScript.Proofs.BlockScopes
import TagScript.Proofs.StoredFunctions
import TagScript.Proofs.Limits
import TagScript.Proofs.Constants
import TagScript.Proofs.Exports
import TagScript.Proofs.SameButTags
import TagScript.Proofs.Tags
import TagScript.Proofs.Assignment
import TagScript.Proofs.TextLiteral
import TagScript.Proofs.WordArithmetic
import TagScript.Proofs.Spacing
import TagScript.Proofs.ExactTokens
import TagScript.Proofs.RealOrder
import TagScript.Proofs.ValueOrder
import TagScript.Proofs.NumericText
import TagScript.Proofs.WrittenNumber
import TagScript.Proofs.PrintedNumber
import TagScript.Proofs.IntegerLiteral
import TagScript.Proofs.OperatorUse
import TagScript.Proofs.Failure
import TagScript.Proofs.UnknownOperator

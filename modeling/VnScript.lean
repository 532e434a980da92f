import VnScript.Text.Blank
import VnScript.Text.Lines
import VnScript.Text.Replace
import VnScript.Text.Integer
import VnScript.Token.Lexer
import VnScript.Decimal.Notation
import VnScript.Grammar.Declaration
import VnScript.Execution.Run
import VnScript.Tree.Bound
import VnScript.Tree.Dump
import VnScript.Cpp.Prelude
import VnScript.Cpp.Expression
import VnScript.Cpp.Class
import VnScript.Cpp.Unit
import VnScript.Backend
import VnScript.Module.Resolver
import VnScript.Diagnostic
import VnScript.Settings
import VnScript.Main
import VnScript.Proofs.DepthFirst
import VnScript.Proofs.Module.LinkOrder
import VnScript.Proofs.Module.LinkedNames
import VnScript.Proofs.Module.LinkedImports
import VnScript.Proofs.Module.ImportTree
import VnScript.Proofs.Module.Consistency
import VnScript.Proofs.Module.Search
import VnScript.Proofs.Module.Calls
import VnScript.Proofs.Module.CallHistory
import VnScript.Proofs.Token.Layout
import VnScript.Proofs.Token.Respacing
import VnScript.Proofs.Token.Progress
import VnScript.Proofs.Text.Lines
import VnScript.Proofs.Grammar.Lookahead
import VnScript.Proofs.Grammar.WellFormed
import VnScript.Proofs.Grammar.RoundTrip
import VnScript.Proofs.Grammar.Precedence
import VnScript.Proofs.Grammar.Failure
import VnScript.Proofs.Grammar.Headers
import VnScript.Proofs.Diagnostic
import VnScript.Proofs.Cpp.Lexeme
import VnScript.Proofs.Cpp.Spelling
import VnScript.Proofs.Execution.Segments
import VnScript.Proofs.Execution.Frame
import VnScript.Proofs.Execution.Adequacy
import VnScript.Proofs.Cpp.Literal
import VnScript.Proofs.Cpp.Grammar
import VnScript.Proofs.Cpp.Unambiguous
import VnScript.Proofs.Cpp.Code
import VnScript.Proofs.Cpp.Declared
import VnScript.Proofs.Cpp.Grouped
import VnScript.Proofs.Cpp.Grouping
import VnScript.Proofs.Cpp.Logic
import VnScript.Proofs.Execution.Unwinding
import VnScript.Proofs.Execution.FailingCall
import VnScript.Proofs.Execution.Consoles
import VnScript.Proofs.Execution.Input
import VnScript.Proofs.Value.Range
import VnScript.Proofs.Value.Arithmetic
import VnScript.Proofs.Execution.Iteration
import VnScript.Proofs.Execution.ControlForms
import VnScript.Proofs.Execution.Arithmetic
import VnScript.Proofs.Value.Conversion
import VnScript.Proofs.Cpp.Scanner
import VnScript.Proofs.Cpp.ClosedText
import VnScript.Proofs.Cpp.ClosedStatement
import VnScript.Proofs.Cpp.ClosedClass
import VnScript.Proofs.Cpp.ClosedUnit
import VnScript.Proofs.Cpp.Escape
import VnScript.Proofs.Cpp.Annotated
import VnScript.Proofs.Cpp.Commented
import VnScript.Proofs.Cpp.Fields
import VnScript.Proofs.Cpp.EntryPoint
import VnScript.Proofs.Cpp.Returns
import VnScript.Proofs.Cpp.Mangling
import VnScript.Proofs.Tree.Receivers
import VnScript.Proofs.Module.Location
import VnScript.Proofs.Command.Build
import VnScript.Proofs.Grammar.Descent

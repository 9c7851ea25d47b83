import Abacus.Arithmetic
import Abacus.Calculator.Basic
import Abacus.Calculator.Evaluation
import Abacus.Calculator.Scan
import Abacus.CommandLine.Invocation
import Abacus.CommandLine.Response
import Abacus.Expression.Bracket
import Abacus.Expression.Error
import Abacus.Expression.Machine
import Abacus.Expression.Token
import Abacus.Log.Event
import Abacus.Log.Level
import Abacus.Main
import Abacus.Numeral.Basic
import Abacus.Numeral.Error
import Abacus.Numeral.Letter
import Abacus.Numeral.Reading
import Abacus.Numeral.System
import Abacus.Numeral.Writing
import Abacus.Operator.Basic
import Abacus.Operator.Error
import Abacus.Operator.Table
import Abacus.Proofs.Calculator.Acceptance
import Abacus.Proofs.Calculator.Agreement
import Abacus.Proofs.Calculator.Appending
import Abacus.Proofs.Calculator.Course
import Abacus.Proofs.Calculator.Diagnostics
import Abacus.Proofs.Calculator.Forest
import Abacus.Proofs.Calculator.Frame
import Abacus.Proofs.Calculator.Group
import Abacus.Proofs.Calculator.Lexing
import Abacus.Proofs.Calculator.Magnitude
import Abacus.Proofs.Calculator.Matching
import Abacus.Proofs.Calculator.Moving
import Abacus.Proofs.Calculator.Origin
import Abacus.Proofs.Calculator.Pass
import Abacus.Proofs.Calculator.Precedence
import Abacus.Proofs.Calculator.Scanning
import Abacus.Proofs.Calculator.Schedule
import Abacus.Proofs.Calculator.Shape
import Abacus.Proofs.Calculator.Spacing
import Abacus.Proofs.Calculator.Value
import Abacus.Proofs.CommandLine.Arguments
import Abacus.Proofs.CommandLine.Modes
import Abacus.Proofs.Expression.Alternation
import Abacus.Proofs.Expression.Brackets
import Abacus.Proofs.Expression.Exact
import Abacus.Proofs.Expression.Infix
import Abacus.Proofs.Expression.Nesting
import Abacus.Proofs.Expression.Placement
import Abacus.Proofs.Expression.Schedule
import Abacus.Proofs.Expression.Tree
import Abacus.Proofs.Log.Lines
import Abacus.Proofs.Numeral.Digits
import Abacus.Proofs.Numeral.Fronts
import Abacus.Proofs.Numeral.Inverse
import Abacus.Proofs.Numeral.Pattern
import Abacus.Proofs.Operator.Setup
import Abacus.Proofs.Text.Slice
import Abacus.Text.Blank
import Abacus.Text.Hidden
import Abacus.Text.Lines
import Abacus.Text.Quoted
import Abacus.Text.Width

import SetScript.Builtin
import SetScript.CommandLine
import SetScript.Environment
import SetScript.Eval
import SetScript.Fault
import SetScript.Lexical
import SetScript.Main
import SetScript.Number.Order
import SetScript.Number.Remainder
import SetScript.Number.Rounding
import SetScript.Number.Text
import SetScript.Operation
import SetScript.Parser.Basic
import SetScript.Parser.Expression
import SetScript.Parser.Program
import SetScript.Piece
import SetScript.Proofs.Cursor.Expression
import SetScript.Proofs.Cursor.Machine
import SetScript.Proofs.Cursor.Program
import SetScript.Proofs.Evaluation.Comprehension
import SetScript.Proofs.Evaluation.Computation
import SetScript.Proofs.Evaluation.Frame
import SetScript.Proofs.Evaluation.FreeNames
import SetScript.Proofs.Evaluation.Leftover
import SetScript.Proofs.Evaluation.Lines
import SetScript.Proofs.Evaluation.Origin
import SetScript.Proofs.Evaluation.Renaming
import SetScript.Proofs.Evaluation.Repeated
import SetScript.Proofs.Evaluation.Roster
import SetScript.Proofs.Evaluation.WellFormed
import SetScript.Proofs.Grammar.Derivation
import SetScript.Proofs.Grammar.Expression
import SetScript.Proofs.Grammar.Firsts
import SetScript.Proofs.Grammar.NestingLimit
import SetScript.Proofs.Grammar.Openings
import SetScript.Proofs.Grammar.Primary
import SetScript.Proofs.Grammar.Printed
import SetScript.Proofs.Grammar.Program
import SetScript.Proofs.Grammar.Proper
import SetScript.Proofs.Grammar.Reading
import SetScript.Proofs.Grammar.Reports
import SetScript.Proofs.Grammar.Unambiguous
import SetScript.Proofs.Grammar.Written
import SetScript.Proofs.Height
import SetScript.Proofs.Independence
import SetScript.Proofs.Layout
import SetScript.Proofs.Lines
import SetScript.Proofs.Number.Bits
import SetScript.Proofs.Number.Count
import SetScript.Proofs.Number.Nearest
import SetScript.Proofs.Number.Order
import SetScript.Proofs.Number.Text
import SetScript.Proofs.Outcome
import SetScript.Proofs.Parser.Literals
import SetScript.Proofs.Parser.Lockstep
import SetScript.Proofs.Parser.Lookahead
import SetScript.Proofs.Parser.Moved
import SetScript.Proofs.Parser.Overrun
import SetScript.Proofs.Parser.Recovery
import SetScript.Proofs.Parser.ReportOrder
import SetScript.Proofs.Parser.Success
import SetScript.Proofs.Parser.Sums
import SetScript.Proofs.Parser.Turns
import SetScript.Proofs.ReportedLines
import SetScript.Proofs.RoundTrip
import SetScript.Proofs.Scan.Division
import SetScript.Proofs.Scan.Front
import SetScript.Proofs.Scan.Legible
import SetScript.Proofs.Scan.Lines
import SetScript.Proofs.Scan.Longest
import SetScript.Proofs.Scan.Newline
import SetScript.Proofs.Scan.Rules
import SetScript.Proofs.Scan.Tokens
import SetScript.Proofs.Scan.Written
import SetScript.Proofs.Session
import SetScript.Proofs.SessionNames
import SetScript.Proofs.SessionValues
import SetScript.Proofs.Unreachable
import SetScript.Proofs.Value.Algebra
import SetScript.Proofs.Value.Cardinality
import SetScript.Proofs.Value.Congruence
import SetScript.Proofs.Value.Construction
import SetScript.Proofs.Value.Equality
import SetScript.Proofs.Value.Extremum
import SetScript.Proofs.Value.Membership
import SetScript.Proofs.Value.Order
import SetScript.Proofs.Value.Refinement
import SetScript.Scan
import SetScript.Session
import SetScript.Syntax.Equality
import SetScript.Syntax.Operator
import SetScript.Syntax.Printer
import SetScript.Syntax.Tree
import SetScript.SyntaxError
import SetScript.Token
import SetScript.Value.Basic
import SetScript.Value.Members

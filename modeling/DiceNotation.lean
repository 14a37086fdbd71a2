import DiceNotation.Builtin
import DiceNotation.CommandLine
import DiceNotation.CommandLine.Options
import DiceNotation.Context
import DiceNotation.Context.Entry
import DiceNotation.Dice.Roll
import DiceNotation.Dice.Score
import DiceNotation.Environment
import DiceNotation.Evaluate
import DiceNotation.Expr
import DiceNotation.Expr.Parse
import DiceNotation.Expr.Prefix
import DiceNotation.Expr.Rolled
import DiceNotation.Expr.Walk
import DiceNotation.Failure
import DiceNotation.Form
import DiceNotation.Main
import DiceNotation.Modifier
import DiceNotation.Number
import DiceNotation.Number.Arithmetic
import DiceNotation.Number.Decimal
import DiceNotation.Number.Numeral
import DiceNotation.Proofs.Completeness
import DiceNotation.Proofs.Congruence
import DiceNotation.Proofs.Course
import DiceNotation.Proofs.Grammar
import DiceNotation.Proofs.Numerals
import DiceNotation.Proofs.Parts
import DiceNotation.Proofs.Reading
import DiceNotation.Proofs.Rendering
import DiceNotation.Proofs.Replay
import DiceNotation.Proofs.Resume
import DiceNotation.Proofs.Rolls
import DiceNotation.Proofs.Rules
import DiceNotation.Report
import DiceNotation.Shell
import DiceNotation.Shell.Completion
import DiceNotation.Shell.Highlight
import DiceNotation.Text.Blank
import DiceNotation.Text.Cased
import DiceNotation.Text.Cursor
import DiceNotation.Text.Digit
import DiceNotation.Text.Json
import DiceNotation.Text.Lowercase
import DiceNotation.Text.Printable
import DiceNotation.Text.Quoted
import DiceNotation.Text.Range
import DiceNotation.Token
import DiceNotation.Token.Cursor
import DiceNotation.Token.Scan
import DiceNotation.Value
import DiceNotation.Proofs.Unfinished
import DiceNotation.Proofs.History
import DiceNotation.Proofs.Visits
import DiceNotation.Proofs.Branches
import DiceNotation.Proofs.Blocks
import DiceNotation.Proofs.Lexemes
import DiceNotation.Proofs.Tiling
import DiceNotation.Proofs.Printing
import DiceNotation.Proofs.Failures
import DiceNotation.Proofs.Domain
import DiceNotation.Proofs.FrontEnds
import DiceNotation.Proofs.Bare
import DiceNotation.Proofs.Chains
import DiceNotation.Proofs.Sessions
import DiceNotation.Proofs.Columns
import DiceNotation.Proofs.Layout
import DiceNotation.Proofs.Selections
import DiceNotation.Proofs.Shown
import DiceNotation.Proofs.Pools
import DiceNotation.Proofs.Places
import DiceNotation.Proofs.Alphabet
import DiceNotation.Proofs.Labels
import DiceNotation.Proofs.Highest
import DiceNotation.Proofs.Walks
import DiceNotation.Proofs.Previews
import DiceNotation.Proofs.Highlighting
import DiceNotation.Proofs.Lookback
import DiceNotation.Proofs.Keywords
import DiceNotation.Proofs.Bangs
import DiceNotation.Proofs.Extremes

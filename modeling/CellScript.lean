import CellScript.Main
import CellScript.Syntax.Agreement
import CellScript.Source.Cursor
import CellScript.Proofs.Closed
import CellScript.Proofs.Congruence.Basic
import CellScript.Proofs.Congruence.Cells
import CellScript.Proofs.Congruence.Program
import CellScript.Proofs.Congruence.Interp
import CellScript.Proofs.Congruence.Free
import CellScript.Proofs.Congruence.Fuel
import CellScript.Proofs.Balance
import CellScript.Proofs.Formed
import CellScript.Proofs.Parse.Formed
import CellScript.Proofs.Parse.WellFormed
import CellScript.Proofs.Session.Reachable
import CellScript.Proofs.Session.Stacks
import CellScript.Proofs.Blind
import CellScript.Proofs.Turns
import CellScript.Proofs.Continue
import CellScript.Proofs.Return.Traced
import CellScript.Proofs.Return
import CellScript.Proofs.Detached.Storage
import CellScript.Proofs.Detached.Tidy
import CellScript.Proofs.Detached.Steps
import CellScript.Proofs.Detached.Runs
import CellScript.Proofs.Detached.Guarded
import CellScript.Proofs.Session.Detached
import CellScript.Proofs.Seclusion.Confined
import CellScript.Proofs.Seclusion.Steps
import CellScript.Proofs.Seclusion.Calls
import CellScript.Proofs.Located.Lines
import CellScript.Proofs.Located.Steps
import CellScript.Proofs.Located.Interp
import CellScript.Proofs.Session.Located
import CellScript.Proofs.Session.Globals
import CellScript.Proofs.Console.Dialogue
import CellScript.Proofs.Console.Inputs
import CellScript.Proofs.Depth.Straight
import CellScript.Proofs.Depth.Steps
import CellScript.Proofs.Depth.Bounded
import CellScript.Proofs.Limit.Room
import CellScript.Proofs.Limit.Raised
import CellScript.Proofs.Binding.Steady
import CellScript.Proofs.Binding.Framing
import CellScript.Proofs.Fuel
import CellScript.Proofs.Completing
import CellScript.Proofs.Binding.Stable
import CellScript.Proofs.Conversion.Nested
import CellScript.Proofs.Conversion.Halting
import CellScript.Proofs.Conversion.Ends
import CellScript.Proofs.Parse.Outcome
import CellScript.Proofs.Parse.Progress
import CellScript.Proofs.Parse.Nesting
import CellScript.Proofs.Files.Resolved
import CellScript.Proofs.Parse.Termination
import CellScript.Proofs.Parse.Cut
import CellScript.Proofs.Parse.Retrace
import CellScript.Proofs.Parse.Numbers
import CellScript.Proofs.Parse.Within
import CellScript.Proofs.Parse.Masked
import CellScript.Proofs.Parse.Positions
import CellScript.Proofs.Print.Printer
import CellScript.Proofs.Print.Canonical
import CellScript.Proofs.Print.Reading
import CellScript.Proofs.Print.Levels
import CellScript.Proofs.Print.Expressions
import CellScript.Proofs.Print.Statements
import CellScript.Proofs.Print.Written
import CellScript.Proofs.Print.Text
import CellScript.Proofs.Print.Parsed
import CellScript.Proofs.Print.ParsedStatements
import CellScript.Proofs.Print.RoundTrip
import CellScript.Proofs.Text.Classes
import CellScript.Proofs.Text.Numerals
import CellScript.Proofs.Token.Shape
import CellScript.Proofs.Token.Driven
import CellScript.Proofs.Token.Partition
import CellScript.Proofs.Token.Lookahead
import CellScript.Proofs.Token.Braces
import CellScript.Proofs.Jumps
import CellScript.Proofs.Places
import CellScript.Proofs.Along
import CellScript.Proofs.Alongside
import CellScript.Proofs.Binding.Declared
import CellScript.Proofs.Binding.Settled
import CellScript.Proofs.Binding.Members
import CellScript.Proofs.Binding.Reading
import CellScript.Proofs.Binding.Missing
import CellScript.Proofs.Binding.Found
import CellScript.Proofs.Binding.Growing
import CellScript.Proofs.Binding.Hoisting
import CellScript.Proofs.Binding.Heeding
import CellScript.Proofs.Binding.Heeded
import CellScript.Proofs.Binding.Linked
import CellScript.Proofs.Binding.TwoLevel
import CellScript.Proofs.Numeric.Bits
import CellScript.Proofs.Numeric.Nearest
import CellScript.Proofs.Numeric.Comparison
import CellScript.Proofs.Numeric.Division
import CellScript.Proofs.Numeric.Unsigned
import CellScript.Proofs.Numeric.Blending
import CellScript.Proofs.Realization.Promoted
import CellScript.Proofs.Session.InStep
import CellScript.Proofs.Session.Unambiguous
import CellScript.Proofs.Binding.Holding
import CellScript.Proofs.Binding.InStep
import CellScript.Proofs.Splicing
import CellScript.Proofs.Dumped
import CellScript.Proofs.Token.Closing
import CellScript.Proofs.Numeral.Digits
import CellScript.Proofs.Numeral.Literal
import CellScript.Proofs.Numeral.RoundTrip
import CellScript.Proofs.Parse.Clipped
import CellScript.Proofs.Console.Retried

import DequeMachine.Main
import DequeMachine.Proofs.Number.Rank
import DequeMachine.Proofs.Number.Rounding
import DequeMachine.Proofs.Number.Decimal
import DequeMachine.Proofs.Number.Layout
import DequeMachine.Proofs.Number.Text
import DequeMachine.Proofs.Run.Basic
import DequeMachine.Proofs.Run.Record
import DequeMachine.Proofs.Labels
import DequeMachine.Proofs.Run.Limit
import DequeMachine.Proofs.Program
import DequeMachine.Proofs.Run.Trace
import DequeMachine.Proofs.Run.Cut
import DequeMachine.Proofs.Token
import DequeMachine.Proofs.Run.Literals
import DequeMachine.Proofs.Run.Lines
import DequeMachine.Proofs.Run.Script
import DequeMachine.Proofs.Run.Rules
import DequeMachine.Proofs.Run.Reverse
import DequeMachine.Proofs.Run.Beneath
import DequeMachine.Proofs.Run.Exit
import DequeMachine.Proofs.Run.Resume
import DequeMachine.Proofs.Number.Nearest
import DequeMachine.Proofs.Number.Literal
import DequeMachine.Proofs.Number.Shortest
import DequeMachine.Proofs.Number.Written
import DequeMachine.Proofs.Command
import DequeMachine.Proofs.Number.Exact
import DequeMachine.Proofs.Word
import DequeMachine.Proofs.Bitwise
import DequeMachine.Proofs.Number.Prefixed
import DequeMachine.Proofs.Number.Grammar
import DequeMachine.Proofs.Number.Accumulate
import DequeMachine.Proofs.Run.Jump
import DequeMachine.Proofs.Run.Failure
import DequeMachine.Proofs.Run.Straight
import DequeMachine.Proofs.Run.Append
import DequeMachine.Proofs.Json.Values
import DequeMachine.Proofs.Run.Reference
import DequeMachine.Proofs.Command.Options
import DequeMachine.Proofs.Listing
import DequeMachine.Proofs.Ends
import DequeMachine.Proofs.Run.Undo
import DequeMachine.Proofs.Run.Bounds
import DequeMachine.Proofs.Run.Silent
import DequeMachine.Proofs.Number.Extended
import DequeMachine.Proofs.Comparison

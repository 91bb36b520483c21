/-
  DequeMachine/Operator.lean
  ==========================
  **The operators: two values in, one value out.**

  An operator is given the value that left the deque first and the value that
  left it second.  Sums, differences and comparisons work on numbers, the bitwise
  operators on words of 32 bits.  Where the order matters, the difference and the
  shifts start from the second value, while the comparisons have the first value
  on their left.
-/
import DequeMachine.Value

namespace DequeMachine

/-- An operation on two values. -/
inductive Operator where
  | add
  | sub
  | greater
  | greaterOrEqual
  | less
  | equal
  | shiftRight
  | shiftLeft
  | bitOr
  | bitAnd
deriving DecidableEq, Repr

/-- The result of an operator.  A shift to the right keeps the sign, a shift to
    the left drops the bits that leave the word. -/
def Operator.apply (op : Operator) (first second : Value) : Value :=
  match op with
  | .add => .number (first.toNumber + second.toNumber)
  | .sub => .number (second.toNumber - first.toNumber)
  | .greater => .truth (second.toNumber.less first.toNumber)
  | .greaterOrEqual => .truth (second.toNumber.atMost first.toNumber)
  | .less => .truth (first.toNumber.less second.toNumber)
  | .equal => .truth (first.looselyEquals second)
  | .shiftRight => .ofWord (second.word.sshiftRight first.shift)
  | .shiftLeft => .ofWord (second.word <<< first.shift)
  | .bitOr => .ofWord (first.word ||| second.word)
  | .bitAnd => .ofWord (first.word &&& second.word)

end DequeMachine

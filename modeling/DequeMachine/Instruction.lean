/-
  DequeMachine/Instruction.lean
  =============================
  **What a token means in a program.**

  The meaning of a token depends on the strip rule and on the labels of the whole
  program, and on nothing that happens while the program runs.  An instruction
  word comes first, even in a token that defines a label; then tokens that define
  labels and empty operands, which do nothing; then literals; and last the
  references to labels, which stand for indices.
-/
import DequeMachine.Labels
import DequeMachine.Mnemonic
import DequeMachine.Number.Literal

namespace DequeMachine

/-- The meaning of a token. -/
inductive Instruction where
  /-- Do what an instruction word asks for, at an end of the deque. -/
  | perform (m : Mnemonic) (side : Side)
  | skip
  | push (side : Side) (x : Number)
  | unknown (operand : String)
deriving DecidableEq, Repr

namespace Instruction

/-- The number that an operand stands for: a literal, or else the index of a
    label. -/
def numberOf? (labels : Labels) (operand : String) : Option Number :=
  match Number.read? operand with
  | some x => some x
  | none => (labels.get? operand).map Number.ofNat

/-- The meaning of a token that was taken apart. -/
def ofDecoded (labels : Labels) (d : Decoded) : Instruction :=
  match Mnemonic.ofName? d.operand with
  | some m => .perform m d.side
  | none =>
    if d.isLabel || d.operand.isEmpty then .skip
    else
      match numberOf? labels d.operand with
      | some x => .push d.side x
      | none => .unknown d.operand

def ofToken (rule : StripRule) (labels : Labels) (token : String) : Instruction :=
  ofDecoded labels (Token.decode rule token)

end Instruction

end DequeMachine

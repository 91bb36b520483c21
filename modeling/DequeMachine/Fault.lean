/-
  DequeMachine/Fault.lean
  =======================
  **What can stop a run.**

  Every fault ends the run.  All but the one about the number of steps name the
  index of the token that they are about.
-/
import DequeMachine.Value

namespace DequeMachine

/-- The reason why a run was given up. -/
inductive Fault where
  /-- A token defines a label that an earlier token has defined. -/
  | duplicateLabel (index : Nat) (name : String)
  /-- A value was asked for and there was none. -/
  | emptyDeque (index : Nat)
  /-- An operand is no instruction word, no literal and no label. -/
  | unknownToken (index : Nat) (operand : String)
  /-- A jump to a value that counts as no, such as a label at index zero. -/
  | unknownLabel (index : Nat) (target : Value)
  /-- A jump to a value that is no index. -/
  | invalidTarget (index : Nat) (target : Value)
  /-- The run has used up its steps. -/
  | stepLimit (limit : Nat)
  /-- An event was refused. -/
  | output (index : Nat) (reason : String)
deriving DecidableEq, Repr

def Fault.message : Fault → String
  | .duplicateLabel index name =>
    "duplicate label '" ++ name ++ "' at instruction " ++ toString index
  | .emptyDeque index => "pop from empty deque at instruction " ++ toString index
  | .unknownToken index operand =>
    "unknown token '" ++ operand ++ "' at instruction " ++ toString index
  | .unknownLabel index target =>
    "unknown label for jump target " ++ target.text ++ " at instruction " ++ toString index
  | .invalidTarget index target =>
    "invalid jump target " ++ target.text ++ " at instruction " ++ toString index
  | .stepLimit limit => "step limit of " ++ toString limit ++ " exceeded"
  | .output index reason =>
    "output failed at instruction " ++ toString index ++ ": " ++ reason

end DequeMachine

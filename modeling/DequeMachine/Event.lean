/-
  DequeMachine/Event.lean
  =======================
  **What a run shows.**

  A run shows itself through events only: the ones that the program asks for and,
  when the steps are traced, one before each instruction.  Every event has a line
  of text.
-/
import DequeMachine.Value

namespace DequeMachine

/-- Something that a run shows. -/
inductive Event where
  /-- The program has asked to end; these values are left. -/
  | exit (values : List Value)
  /-- The program has asked which of these values are zero. -/
  | trace (values : List Value)
  /-- The program has printed a value. -/
  | print (value : Value)
  /-- The token at an index is about to be carried out on these values. -/
  | step (index : Nat) (token : String) (values : List Value)
deriving DecidableEq, Repr

namespace Event

def isStep : Event → Bool
  | .step .. => true
  | _ => false

/-- A blank for each zero and a star for each other value. -/
def marks (values : List Value) : String :=
  String.ofList (values.map fun v => if v.isZero then ' ' else '*')

def line : Event → String
  | .exit values => "EXIT " ++ Value.jsonList values
  | .trace values => marks values
  | .print value => "PRINT:  " ++ value.text
  | .step index token values =>
    toString index ++ "\t" ++ token ++ " \t<-  " ++ Value.jsonList values

end Event

end DequeMachine

/-
  DequeMachine/Mnemonic.lean
  ==========================
  **The instruction words.**

  There are twenty of them, ten of which name an operator.  A word is recognised
  when it is spelt exactly as in the table, capitals and all; every other text is
  a label, a literal or a reference to a label.
-/
import DequeMachine.Operator

namespace DequeMachine

/-- What an instruction word asks for. -/
inductive Mnemonic where
  /-- Show the deque and end the run. -/
  | exit
  | drop
  /-- Show which values are zero. -/
  | trace
  /-- Take a value and show it. -/
  | print
  /-- Take an index and go on there. -/
  | jump
  /-- Take an index and a condition, and go on there if the condition holds. -/
  | jumpIf
  /-- Take two values and put their combination in their place. -/
  | operator (op : Operator)
  | swap
  /-- Take a value to the other end. -/
  | move
  /-- Put a copy of the second value above the first. -/
  | over
  /-- Put a copy of a value above it. -/
  | dup
deriving DecidableEq, Repr

def Operator.name : Operator → String
  | .add => "add"
  | .sub => "sub"
  | .greater => ">"
  | .greaterOrEqual => ">="
  | .less => "<"
  | .equal => "eq"
  | .shiftRight => "shr"
  | .shiftLeft => "shl"
  | .bitOr => "or"
  | .bitAnd => "and"

namespace Mnemonic

def name : Mnemonic → String
  | .exit => "exit"
  | .drop => "drop"
  | .trace => "trace"
  | .print => "print"
  | .jump => "jmp"
  | .jumpIf => "jmpif"
  | .operator op => op.name
  | .swap => "swap"
  | .move => "move"
  | .over => "over"
  | .dup => "dup"

def all : List Mnemonic :=
  [.exit, .drop, .trace, .operator .add, .operator .sub, .print, .jump, .jumpIf,
   .operator .greater, .operator .greaterOrEqual, .operator .less, .operator .equal,
   .operator .shiftRight, .operator .shiftLeft, .operator .bitOr, .operator .bitAnd,
   .swap, .move, .over, .dup]

def ofName? (name : String) : Option Mnemonic :=
  all.find? fun m => m.name == name

/-- The place of an instruction word in the table, counted from zero. -/
def index (m : Mnemonic) : Nat := all.idxOf m

/-! ### Laws -/

theorem mem_all (m : Mnemonic) : m ∈ all := by
  cases m with
  | operator op => cases op <;> decide
  | _ => decide

theorem name_of_ofName? {name : String} {m : Mnemonic} (h : ofName? name = some m) :
    m.name = name := by
  have := List.find?_some h
  simpa using this

end Mnemonic

end DequeMachine

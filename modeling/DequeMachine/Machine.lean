/-
  DequeMachine/Machine.lean
  =========================
  **One instruction at a time.**

  The machine has a deque, the labels of its program, the index of the token that
  comes next, a count of the steps it has begun and a note of how it was halted.
  Carrying out an instruction has an *effect*, which is one of three: the machine
  goes on, it offers an event, or there is a fault.  An effect does not say where
  an event goes, only what becomes of the machine if the event is accepted and
  what if it is not.

  Values leave the deque one by one, and those that have left stay gone when a
  later one is missing or turns out to be of no use.  A fault leaves the index
  where it was.
-/
import DequeMachine.Deque
import DequeMachine.Event
import DequeMachine.Instruction

namespace DequeMachine

/-- How a run came to its end. -/
inductive Halt where
  /-- The program asked for it. -/
  | exit
  | endOfProgram
deriving DecidableEq, Repr

/-- What remains of a run that came to its end. -/
structure Outcome where
  halt : Halt
  /-- The values from left to right. -/
  values : List Value
  /-- How many instructions were begun. -/
  steps : Nat
deriving DecidableEq, Repr

/-- The state of the machine between two instructions. -/
structure Machine where
  deque : Deque
  labels : Labels
  /-- The index of the token that comes next. -/
  index : Nat
  /-- How many instructions were begun. -/
  steps : Nat
  /-- How a run was halted, once a program has asked for it. -/
  halt : Option Halt
deriving DecidableEq, Repr

/-- What comes of an instruction. -/
inductive Effect where
  | next (machine : Machine)
  /-- An event is offered.  The machine goes on if it is accepted, and remains in
      another state if it is not. -/
  | offer (event : Event) (accepted refused : Machine)
  /-- There is a fault, and this is what remains. -/
  | fail (fault : Fault) (machine : Machine)
deriving DecidableEq, Repr

namespace Machine

/-- A machine with an empty deque that has done nothing yet. -/
def fresh : Machine := ⟨.empty, .empty, 0, 0, none⟩

def outcome (m : Machine) : Outcome :=
  ⟨m.halt.getD .endOfProgram, m.deque.toList, m.steps⟩

/-! ### Parts of instructions -/

def advance (m : Machine) : Machine := { m with index := m.index + 1 }

def give (m : Machine) (side : Side) (v : Value) : Machine :=
  { m with deque := m.deque.push side v }

/-- Take a value and go on with it; it is a fault if there is none. -/
def take (m : Machine) (side : Side) (go : Value → Machine → Effect) : Effect :=
  match m.deque.pop? side with
  | some (v, rest) => go v { m with deque := rest }
  | none => .fail (.emptyDeque m.index) m

def takeTwo (m : Machine) (side : Side) (go : Value → Value → Machine → Effect) : Effect :=
  m.take side fun first m => m.take side fun second m => go first second m

/-- The last index that a jump can lead to; a jump past it leads to it. -/
abbrev lastIndex : Nat := Nat.pow 2 64 - 1

/-- Go on at the index that a value stands for. -/
def jumpTo (m : Machine) (target : Value) : Effect :=
  if target.isTruthy then
    match target.toNumber.toNat? with
    | some n => .next { m with index := min n lastIndex }
    | none => .fail (.invalidTarget m.index target) m
  else .fail (.unknownLabel m.index target) m

/-! ### Instructions -/

/-- Do what an instruction word asks for, in a program of so many tokens.  A halt
    leads past the end of the program. -/
def perform (size : Nat) (m : Machine) (word : Mnemonic) (side : Side) : Effect :=
  match word with
  | .exit =>
    .offer (.exit m.deque.toList) { m with halt := some .exit, index := size + 1 } m
  | .drop => m.take side fun _ m => .next m.advance
  | .trace => .offer (.trace m.deque.toList) m.advance m
  | .print => m.take side fun v m => .offer (.print v) m.advance m
  | .jump => m.take side fun target m => m.jumpTo target
  | .jumpIf => m.takeTwo side fun target condition m =>
    if condition.isTruthy then m.jumpTo target else .next m.advance
  | .operator op => m.takeTwo side fun first second m =>
    .next (m.give side (op.apply first second)).advance
  | .swap => m.takeTwo side fun first second m =>
    .next ((m.give side first).give side second).advance
  | .move => m.take side fun v m => .next (m.give side.opposite v).advance
  | .over => m.takeTwo side fun first second m =>
    .next (((m.give side second).give side first).give side second).advance
  | .dup => m.take side fun v m => .next ((m.give side v).give side v).advance

def exec (size : Nat) (m : Machine) : Instruction → Effect
  | .perform word side => m.perform size word side
  | .skip => .next m.advance
  | .push side x => .next (m.give side (.number x)).advance
  | .unknown operand => .fail (.unknownToken m.index operand) m

end Machine

end DequeMachine

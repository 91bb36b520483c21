/-
  DequeMachine/Run.lean
  =====================
  **Runs: from the first instruction to the end.**

  A task is a program with the settings it is run under.  A run of a task starts
  by collecting the labels; if that goes well, the machine begins at index zero
  and carries out one token after another until there is none at its index, a
  fault arises, or the steps are used up.  Events go to a sink on the way.

  A run need not come to an end, so it is described by its states: `Run.next` is
  the state after one more instruction, and `Task.execute?` looks at the state
  after so many of them.

  A machine can be used for several runs.  Its deque, its count of steps and its
  note of a halt stay as they are from one to the next.
-/
import DequeMachine.Machine
import DequeMachine.Sink

namespace DequeMachine

/-- The settings of a run. -/
structure Config where
  /-- How operands are cut out of tokens. -/
  rule : StripRule := .trailing
  /-- Whether there is an event before each instruction. -/
  trace : Bool := false
  /-- How many instructions may be begun, if there is a limit. -/
  maxSteps : Option Nat := none
deriving DecidableEq, Repr

/-- A program and the settings of its runs. -/
structure Task where
  program : Program
  config : Config
deriving DecidableEq, Repr

/-- A state of a run with a sink: on its way, or at its end. -/
inductive Run (σ : Type) where
  | going (machine : Machine) (state : σ)
  | ended (result : Except Fault Outcome) (machine : Machine) (state : σ)

namespace Task

variable {σ : Type}

/-- Offer an event and go on if it is accepted. -/
def offer (sink : Sink σ) (event : Event) (state : σ) (refused : Machine) (go : σ → Run σ) :
    Run σ :=
  match sink.offer state event with
  | .accepted state => go state
  | .refused reason state => .ended (.error (.output refused.index reason)) refused state

def settle (sink : Sink σ) (effect : Effect) (state : σ) : Run σ :=
  match effect with
  | .next m => .going m state
  | .offer event accepted refused =>
    offer sink event state refused fun state => .going accepted state
  | .fail fault m => .ended (.error fault) m state

def instruction (task : Task) (m : Machine) (token : String) : Instruction :=
  .ofToken task.config.rule m.labels token

def carryOut (task : Task) (sink : Sink σ) (token : String) (m : Machine) (state : σ) : Run σ :=
  settle sink (m.exec task.program.size (task.instruction m token)) state

def limitReached? (task : Task) (m : Machine) : Option Nat :=
  task.config.maxSteps.filter (· ≤ m.steps)

/-- Begin the instruction of a token: count it, show it if the steps are traced,
    and carry it out. -/
def begin (task : Task) (sink : Sink σ) (token : String) (m : Machine) (state : σ) : Run σ :=
  let m := { m with steps := m.steps + 1 }
  if task.config.trace then
    offer sink (.step m.index token m.deque.toList) state m fun state =>
      task.carryOut sink token m state
  else task.carryOut sink token m state

def next (task : Task) (sink : Sink σ) : Run σ → Run σ
  | .ended result m state => .ended result m state
  | .going m state =>
    match task.program.get? m.index with
    | none => .ended (.ok m.outcome) m state
    | some token =>
      match task.limitReached? m with
      | some limit => .ended (.error (.stepLimit limit)) m state
      | none => task.begin sink token m state

/-- The state of a run after so many more instructions, or at its end if it comes
    first. -/
def after (task : Task) (sink : Sink σ) : Nat → Run σ → Run σ
  | 0, run => run
  | _ + 1, .ended result m state => .ended result m state
  | n + 1, .going m state => task.after sink n (task.next sink (.going m state))

def start (task : Task) (m : Machine) (state : σ) : Run σ :=
  match Labels.ofProgram task.program with
  | .ok labels => .going { m with labels, index := 0 } state
  | .error fault => .ended (.error fault) m state

/-- The end of a run, with the machine and the sink as they are then, unless it
    takes more than so many instructions to get there. -/
def execute? (task : Task) (sink : Sink σ) (fuel : Nat) (m : Machine) (state : σ) :
    Option (Except Fault Outcome × Machine × σ) :=
  match task.after sink fuel (task.start m state) with
  | .ended result m state => some (result, m, state)
  | .going .. => none

end Task

end DequeMachine

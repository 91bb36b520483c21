/-
  DequeMachine/Channel.lean
  =========================
  **Events as lines on two channels.**

  A channel takes bytes, up to its capacity if it has one.  What does not fit is
  cut off, and the write counts as failed.  The sink of this module writes each
  event as a line: the events of the trace of steps go to one channel and all
  others to the other.
-/
import DequeMachine.Sink

namespace DequeMachine

/-! ### Channels -/

/-- The bytes that were taken so far, and how many there may be. -/
structure Channel where
  capacity : Option Nat
  bytes : Array UInt8
deriving DecidableEq, Repr

namespace Channel

def ofCapacity (capacity : Option Nat) : Channel := ⟨capacity, #[]⟩

/-- The part of some bytes for which there is room behind those that were taken. -/
def fitting (capacity : Option Nat) (taken : Nat) (bytes : Array UInt8) : Array UInt8 :=
  match capacity with
  | none => bytes
  | some n => bytes.take (n - taken)

/-- The channel after a text was written, with whether all of it was taken. -/
def write : Channel → String → Channel × Bool
  | ⟨capacity, taken⟩, text =>
    let bytes := text.toUTF8.data
    let fit := fitting capacity taken.size bytes
    (⟨capacity, taken ++ fit⟩, fit.size == bytes.size)

/-- The text that was taken.  A character that was cut at the end shows as a
    replacement character. -/
def text (c : Channel) : String :=
  let textWithout (n : Nat) : Option String :=
    String.fromUTF8? ⟨c.bytes.take (c.bytes.size - n)⟩
  match textWithout 0 with
  | some s => s
  | none =>
    match [1, 2, 3].findSome? textWithout with
    | some s => s.push '\uFFFD'
    | none => ""

end Channel

/-! ### Lines -/

/-- The channel for the steps, and the channel for all other events. -/
structure Lines where
  out : Channel
  debug : Channel
deriving DecidableEq, Repr

namespace Lines

def unlimited : Lines := ⟨.ofCapacity none, .ofCapacity none⟩

/-- The reason for which a channel refuses a line. -/
def reasonFull : String := "failed to write whole buffer"

/-- The state with the line of an event on its channel, with whether all of it was
    taken. -/
def write : Lines → Event → Lines × Bool
  | ⟨out, debug⟩, e =>
    let line := e.line ++ "\n"
    if e.isStep then
      let (debug, whole) := debug.write line
      (⟨out, debug⟩, whole)
    else
      let (out, whole) := out.write line
      (⟨out, debug⟩, whole)

def sink : Sink Lines where
  offer l e :=
    let (written, whole) := l.write e
    if whole then .accepted written else .refused reasonFull written

end Lines

end DequeMachine

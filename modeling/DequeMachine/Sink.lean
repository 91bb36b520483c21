/-
  DequeMachine/Sink.lean
  ======================
  **Where events go.**

  A sink is offered one event after another.  It may refuse one, giving a reason,
  and in either case goes on from a state of its own, since what is refused may
  still leave something behind.  The sink of this module keeps the events in a
  journal and refuses the one with a given number, if any.
-/
import DequeMachine.Event

namespace DequeMachine

/-- The answer to an event that was offered, with the state to go on from. -/
inductive Reply (σ : Type) where
  | accepted (state : σ)
  | refused (reason : String) (state : σ)
deriving Repr

/-- Something that events are offered to, with states of a given type. -/
structure Sink (σ : Type) where
  offer : σ → Event → Reply σ

/-! ### The journal -/

/-- How many events were offered, and which of them were kept. -/
structure Journal where
  offered : Nat
  events : Array Event
deriving DecidableEq, Repr

namespace Journal

def empty : Journal := ⟨0, #[]⟩

def keep (j : Journal) (e : Event) : Journal := ⟨j.offered + 1, j.events.push e⟩

def skip (j : Journal) : Journal := { j with offered := j.offered + 1 }

def cleared (j : Journal) : Journal := { j with events := #[] }

def sink : Sink Journal where
  offer j e := .accepted (j.keep e)

/-- The sink that keeps every event but the one with a number, counted from
    zero. -/
def sinkRefusing (number : Nat) (reason : String) : Sink Journal where
  offer j e := if j.offered = number then .refused reason j.skip else .accepted (j.keep e)

end Journal

end DequeMachine

/-
  DequeMachine/Labels.lean
  ========================
  **The labels of a program.**

  A label stands for the index of the token that defines it.  All tokens are
  looked at before any of them is carried out, and a label that is defined twice
  is a fault at the second place.  The entries are kept in the order of their
  indices.
-/
import DequeMachine.Fault
import DequeMachine.Program
import DequeMachine.Token

namespace DequeMachine

/-- The labels found so far, each with the index of its token. -/
structure Labels where
  /-- The entries in the order of their indices. -/
  entries : List (String × Nat)
deriving DecidableEq, Repr

namespace Labels

def empty : Labels := ⟨[]⟩

def size (t : Labels) : Nat := t.entries.length

def isEmpty (t : Labels) : Bool := t.entries.isEmpty

def get? (t : Labels) (name : String) : Option Nat := t.entries.lookup name

/-- One more label, behind the others. -/
def add (t : Labels) (name : String) (index : Nat) : Labels := ⟨t.entries ++ [(name, index)]⟩

/-- Look at the tokens from an index on, when `known` holds the labels before. -/
def scan (index : Nat) (known : Labels) : List String → Except Fault Labels
  | [] => .ok known
  | token :: rest =>
    match Token.labelName? token with
    | none => scan (index + 1) known rest
    | some name =>
      if (known.get? name).isSome then .error (.duplicateLabel index name)
      else scan (index + 1) (known.add name index) rest

def ofProgram (p : Program) : Except Fault Labels := scan 0 empty p.tokens.toList

end Labels

end DequeMachine

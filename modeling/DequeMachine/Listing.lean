/-
  DequeMachine/Listing.lean
  =========================
  **A program laid open.**

  The listing of a program has a line for each token: its index, the end of the
  deque it is about, the token and its operand between quotation marks, and a
  mark if it defines a label.  The fields are separated by tabs, which cannot
  occur inside a quoted text.  The labels of the program follow in a section of
  their own, if there are any.
-/
import DequeMachine.Labels
import DequeMachine.Text.Quoted

namespace DequeMachine.Listing

def tokenLine (rule : StripRule) (index : Nat) (token : String) : String :=
  let d := Token.decode rule token
  toString index ++ "\t" ++ d.side.name ++ "\t" ++ Text.quote token ++ "\t" ++ Text.quote d.operand
    ++ (if d.isLabel then "\tlabel" else "")

def tokenLines (rule : StripRule) (p : Program) : List String :=
  p.tokens.toList.mapIdx (tokenLine rule)

def labelLine (entry : String × Nat) : String :=
  "  " ++ entry.1 ++ " = " ++ toString entry.2

def labelLines (t : Labels) : List String :=
  if t.isEmpty then [] else "" :: "labels:" :: t.entries.map labelLine

def unlines (lines : List String) : String :=
  String.join (lines.map (· ++ "\n"))

end DequeMachine.Listing

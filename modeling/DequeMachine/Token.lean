/-
  DequeMachine/Token.lean
  =======================
  **Taking a token apart.**

  A token says which end of the deque it is about, left if its first character
  that is not blank is a `!`, and what to do there, its *operand*.  How the
  operand is cut out of the token is up to the strip rule.  Under `trailing` a
  left token loses its first character and a right token its last one, whatever
  these characters are.  Under `labelOnly` a left token loses a `!` and a right
  token a `:`, and only if it is there, after the blank characters on that side.

  Apart from this, a token defines a label if its last character that is not
  blank is a `:`; the label is all that stands before it.
-/
import DequeMachine.Text.Blank

namespace DequeMachine

/-! ### Sides and rules -/

/-- An end of the deque. -/
inductive Side where
  | left
  | right
deriving DecidableEq, Repr

def Side.opposite : Side → Side
  | .left => .right
  | .right => .left

def Side.name : Side → String
  | .left => "left"
  | .right => "right"

@[simp] theorem Side.opposite_opposite (s : Side) : s.opposite.opposite = s := by
  cases s <;> rfl

/-- How an operand is cut out of a token. -/
inductive StripRule where
  | trailing
  | labelOnly
deriving DecidableEq, Repr

/-! ### Tokens -/

/-- What a token says. -/
structure Decoded where
  /-- The end of the deque that it is about. -/
  side : Side
  operand : String
  /-- Whether it defines a label. -/
  isLabel : Bool
deriving DecidableEq, Repr

namespace Token

open Text

def side (token : String) : Side :=
  if (trimStart isBlank token.toList).head? = some '!' then .left else .right

def isLabel (token : String) : Bool :=
  (trimEnd isBlank token.toList).getLast? == some ':'

/-- The label that a token defines, if it does. -/
def labelName? (token : String) : Option String :=
  let cs := trimEnd isBlank token.toList
  if cs.getLast? = some ':' then some (String.ofList cs.dropLast) else none

/-- What remains of the characters of a token that is about one side. -/
def strip (rule : StripRule) (side : Side) (cs : List Char) : List Char :=
  match rule, side with
  | .trailing, .left => cs.tail
  | .trailing, .right => cs.dropLast
  | .labelOnly, .left => dropLeading '!' (trimStart isBlank cs)
  | .labelOnly, .right => dropTrailing ':' (trimEnd isBlank cs)

def operand (rule : StripRule) (token : String) : String :=
  String.ofList (strip rule (side token) token.toList)

def decode (rule : StripRule) (token : String) : Decoded where
  side := side token
  operand := operand rule token
  isLabel := isLabel token

theorem isSome_labelName? (token : String) : (labelName? token).isSome = isLabel token := by
  simp only [labelName?, isLabel]
  split <;> simp_all

end Token

end DequeMachine

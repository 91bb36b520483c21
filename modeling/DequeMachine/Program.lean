/-
  DequeMachine/Program.lean
  =========================
  **Programs, and how a text becomes one.**

  A program is a row of tokens, and the index of a token is what jumps and labels
  speak of.  A text is cut into lines at every line feed and every carriage
  return, and a line into tokens at every space and every tab.  Empty tokens
  stay, since they count for the indices.  A line whose first character that is
  not blank is a `#` is a comment; it counts as an empty line, which is one empty
  token.
-/
import DequeMachine.Text.Blank

namespace DequeMachine

/-- A row of tokens. -/
structure Program where
  tokens : Array String
deriving DecidableEq, Repr

namespace Program

open Text

def isLineEnd (c : Char) : Bool := c == '\n' || c == '\r'

def isSeparator (c : Char) : Bool := c == ' ' || c == '\t'

def isComment (line : List Char) : Bool :=
  (trimStart isBlank line).head? == some '#'

def lineTokens (line : List Char) : List String :=
  ((if isComment line then [] else line).splitOnP isSeparator).map String.ofList

/-- The program that a text spells. -/
def parse (source : String) : Program :=
  ⟨((source.toList.splitOnP isLineEnd).flatMap lineTokens).toArray⟩

def size (p : Program) : Nat := p.tokens.size

def isEmpty (p : Program) : Bool := p.tokens.isEmpty

def get? (p : Program) (index : Nat) : Option String := p.tokens[index]?

end Program

end DequeMachine

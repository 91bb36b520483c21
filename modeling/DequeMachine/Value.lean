/-
  DequeMachine/Value.lean
  =======================
  **What the deque holds.**

  A value is a number or a truth value.  No operation insists on one of the two:
  each first turns what it is given into what it needs, a number (`toNumber`), a
  yes or no (`isTruthy`) or a word of 32 bits (`word`).

  A value has two written forms.  `text` is for people; `json` is for lists of
  values and gives up what that format cannot say, the sign of zero and all that
  is not a finite number.
-/
import DequeMachine.Number.Layout

namespace DequeMachine

/-- A number or a truth value.  Two values are the same if they are of the same
    kind and, for numbers, have the same bit pattern. -/
inductive Value where
  | number (x : Number)
  | truth (b : Bool)
deriving DecidableEq, Repr

namespace Value

/-! ### What a value counts as -/

/-- The value as a number: truth counts as one and falsehood as zero. -/
def toNumber : Value → Number
  | .number x => x
  | .truth true => .ofNat 1
  | .truth false => .zero

def isTruthy : Value → Bool
  | .number x => x.isTruthy
  | .truth b => b

/-- How many words of 32 bits there are. -/
abbrev wordCount : Nat := Nat.pow 2 32

/-- The value as a word of 32 bits: the whole part of its number, wrapped around.
    Infinities and what is not a number give the word of zeros. -/
def word (v : Value) : BitVec 32 :=
  let x := v.toNumber
  if x.isFinite then .ofNat 32 ((x.whole.modulo (.ofNat wordCount)).clamp (wordCount - 1))
  else 0

/-- The value as the distance of a shift: the low five bits of its word. -/
def shift (v : Value) : Nat := (v.word &&& 31).toNat

def looselyEquals (v w : Value) : Bool := v.toNumber.equals w.toNumber

/-- Is this a zero among the numbers?  Falsehood is not. -/
def isZero : Value → Bool
  | .number x => x.isZero
  | .truth _ => false

/-- The value of a word, read with its sign. -/
def ofWord (w : BitVec 32) : Value := .number (.ofInt w.toInt)

/-! ### Written forms -/

def truthText (b : Bool) : String := if b then "true" else "false"

def text : Value → String
  | .number x => x.text
  | .truth b => truthText b

/-- The value as an element of a JSON array. -/
def json : Value → String
  | .truth b => truthText b
  | .number x =>
    if !x.isFinite then "null"
    else if x.isZero then "0"
    else x.text

def jsonList (values : List Value) : String :=
  "[" ++ ",".intercalate (values.map json) ++ "]"

end Value

end DequeMachine

/-
  DequeMachine/Number/Literal.lean
  ================================
  **How a number is read.**

  A literal is one of four things, after the blank characters and byte order
  marks around it are gone: nothing at all, which reads as zero; `0x`, `0o` or
  `0b` and digits of that radix, without a sign; `Infinity`, with or without a
  sign; or a decimal, with or without a sign, a point and an exponent.

  A decimal is read exactly and rounded once.  The digits of a radix literal are
  taken in from the left, rounding as each digit comes in, so that a long literal
  may end up at either neighbour of its exact value.
-/
import DequeMachine.Number.Basic
import DequeMachine.Number.Decimal
import DequeMachine.Text.Blank

namespace DequeMachine.Literal

/-! ### Radix literals -/

/-- The radix that a mark stands for. -/
def radixOfMark? (mark : Char) : Option Nat :=
  if mark = 'x' ∨ mark = 'X' then some 16
  else if mark = 'o' ∨ mark = 'O' then some 8
  else if mark = 'b' ∨ mark = 'B' then some 2
  else none

/-- The radix that a literal announces, with the text behind the mark. -/
def radix? : List Char → Option (Nat × List Char)
  | '0' :: mark :: rest => (radixOfMark? mark).map (·, rest)
  | _ => none

/-- What a character is worth as a digit, letters standing for ten and more. -/
def digitWorth? (c : Char) : Option Nat :=
  if '0' ≤ c ∧ c ≤ '9' then some (c.toNat - '0'.toNat)
  else if 'a' ≤ c ∧ c ≤ 'z' then some (c.toNat - 'a'.toNat + 10)
  else if 'A' ≤ c ∧ c ≤ 'Z' then some (c.toNat - 'A'.toNat + 10)
  else none

/-- What a character is worth as a digit of a radix. -/
def digit? (radix : Nat) (c : Char) : Option Nat :=
  (digitWorth? c).filter (· < radix)

/-- Take in digits from the left, rounding the product and the sum each time. -/
def accumulate (radix : Nat) (digits : List Nat) : Magnitude :=
  digits.foldl (fun m d => (m.scale radix).add (.ofNat d)) .zero

/-- The digits behind a mark: at least one, and all of that radix. -/
def readRadix (radix : Nat) (cs : List Char) : Option Number :=
  if cs.isEmpty then none
  else (cs.mapM (digit? radix)).map fun digits => .signed false (accumulate radix digits)

/-! ### Signed literals -/

/-- A sign, if there is one, says whether the number is negative. -/
def cutSign : List Char → Bool × List Char
  | '-' :: rest => (true, rest)
  | '+' :: rest => (false, rest)
  | cs => (false, cs)

/-- Are these all decimal digits?  Only the ten of ASCII count. -/
def allDigits (cs : List Char) : Bool := cs.all Char.isDigit

/-- An exponent: a sign if need be, and at least one digit. -/
def readExponent (cs : List Char) : Option Int :=
  let (negative, digits) := cutSign cs
  if digits.isEmpty || !allDigits digits then none
  else
    let n : Int := Nat.ofDigitChars 10 digits 0
    some (if negative then -n else n)

/-- A decimal without a sign: digits with at most one point among them, at least
    one digit in all, and an exponent if there is an `e` or `E`. -/
def readDecimal (cs : List Char) : Option Decimal :=
  let (mantissa, power) := Text.cutAt (fun c => c == 'e' || c == 'E') cs
  let (whole, fraction) := Text.cutAt (· == '.') mantissa
  let digits := whole ++ fraction.getD []
  if digits.isEmpty || !allDigits digits then none
  else
    let exponent := match power with
      | none => some 0
      | some p => readExponent p
    exponent.map fun e => ⟨Nat.ofDigitChars 10 digits 0, e - (fraction.getD []).length⟩

/-- A magnitude: infinity by name, or a decimal. -/
def readMagnitude (cs : List Char) : Option Magnitude :=
  if cs = "Infinity".toList then some .infinity
  else (readDecimal cs).map Decimal.toMagnitude

/-! ### All literals -/

/-- Is this a character that may stand around a literal? -/
def isMargin (c : Char) : Bool := Text.isBlank c || c == '\uFEFF'

/-- A literal without anything around it. -/
def readTrimmed (cs : List Char) : Option Number :=
  if cs.isEmpty then some .zero
  else
    match radix? cs with
    | some (radix, digits) => readRadix radix digits
    | none =>
      let (negative, rest) := cutSign cs
      (readMagnitude rest).map (.signed negative)

def readChars (cs : List Char) : Option Number :=
  readTrimmed (Text.trim isMargin cs)

end DequeMachine.Literal

namespace DequeMachine

def Number.read? (text : String) : Option Number :=
  Literal.readChars text.toList

end DequeMachine

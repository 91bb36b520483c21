/-
  DequeMachine/Number/Decimal.lean
  ================================
  **Decimals, and the shortest one that reads back.**

  A decimal is a coefficient and a power of ten.  Going one way,
  `Decimal.toMagnitude` is the magnitude nearest to a decimal, whatever the
  number of its digits and the size of its exponent.  Going the other way,
  `Magnitude.shortest` is a decimal that reads back as the magnitude, with as few
  digits as possible and, of those, the nearest one.

  The search needs no clever arithmetic.  The decimals with at most n digits near
  a magnitude form a grid; if any point of the grid reads back, then so does one
  of the two next to the magnitude.  So the grids for 1, 2, … 17 digits are
  tried in turn, two points each, in exact arithmetic.  Should none of them do,
  the exact decimal expansion stands in, which every magnitude has.
-/
import DequeMachine.Number.Magnitude

namespace DequeMachine

/-- The decimal `coefficient · 10 ^ exponent`. -/
structure Decimal where
  coefficient : Nat
  exponent : Int
deriving DecidableEq, Repr

/-! ### Reading -/

/-- The magnitude nearest to a decimal.  From 10^310 on that is infinity, and up
    to 10^-324 it is zero; both are settled without computing a power. -/
def Decimal.toMagnitude (d : Decimal) : Magnitude :=
  if d.coefficient = 0 then .zero
  else if 310 ≤ d.exponent then .infinity
  else if d.exponent + d.coefficient.log2 < -324 then .zero
  else
    .nearest (d.coefficient * Nat.pow 10 d.exponent.toNat * unitsPerOne)
      (Nat.pow 10 (-d.exponent).toNat)

/-! ### Counting digits -/

/-- The first `j` of `start`, `start + 1`, … with `n < 10 ^ j`, looking at no
    more than `tries` of them. -/
def digitCountFrom (n : Nat) : (tries : Nat) → (start : Nat) → Nat
  | 0, start => start
  | tries + 1, start => if n < Nat.pow 10 start then start else digitCountFrom n tries (start + 1)

/-- How many decimal digits a natural number has; zero has none.  Since 10^3 is
    less than 2^10, three tenths of the binary length is a safe place to start. -/
def digitCount (n : Nat) : Nat :=
  digitCountFrom n (n.log2 + 2) (3 * n.log2 / 10)

namespace Magnitude

/-! ### Shortest decimals -/

/-- Where the decimal point stands, counted from before the first digit: a
    positive finite magnitude is at least 10^(p-1) and less than 10^p.  All of
    them are above 10^-324. -/
def pointPlace (m : Magnitude) : Int :=
  (digitCount (m.units * Nat.pow 10 324 / unitsPerOne) : Nat) - 324

/-- The point that reads back among the two next to a magnitude on the grid of
    multiples of a power of ten.  Of two the nearer one is taken, and the upper
    one when they are equally near. -/
def closestOnGrid? (m : Magnitude) (exponent : Int) : Option Decimal :=
  let num := m.units * Nat.pow 10 (-exponent).toNat
  let den := unitsPerOne * Nat.pow 10 exponent.toNat
  let low := num / den
  let below : Decimal := ⟨low, exponent⟩
  let above : Decimal := ⟨low + 1, exponent⟩
  if below.toMagnitude = m then
    if above.toMagnitude = m ∧ (2 * low + 1) * den ≤ 2 * num then some above else some below
  else if above.toMagnitude = m then some above
  else none

/-- The exact decimal expansion: half of ten is five, so a unit is
    5^1074 · 10^-1074. -/
def expansion (m : Magnitude) : Decimal := ⟨m.units * Nat.pow 5 1074, -1074⟩

/-- How many digits are enough to tell any two doubles apart. -/
abbrev digitsEnough : Nat := 17

/-- The nearest of the shortest decimals that read back as a positive finite
    magnitude. -/
def shortest (m : Magnitude) : Decimal :=
  ((List.range digitsEnough).findSome? fun i =>
    m.closestOnGrid? (m.pointPlace - (i + 1 : Nat))).getD m.expansion

end Magnitude

end DequeMachine

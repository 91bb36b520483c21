/-
  DequeMachine/Number/Layout.lean
  ===============================
  **How a number is written.**

  A finite number is written with the digits of its shortest decimal.  From
  10^-6 up to, but not including, 10^21 it is laid out in full, with as many
  zeros as it takes to reach the point; outside of that range one digit stands
  before the point and an exponent with an explicit sign follows.  Zero is `0`,
  and a negative number of any kind, negative zero included, has a `-` in front.
  The rest are `Infinity` and `NaN`.
-/
import DequeMachine.Number.Basic
import DequeMachine.Number.Decimal
import DequeMachine.Text.Blank

namespace DequeMachine

/-! ### Digits and the place of the point -/

namespace Decimal

/-- The digits of a decimal that mean something: no zeros at the end. -/
def digits (d : Decimal) : List Char :=
  Text.trimEnd (· == '0') (Nat.toDigits 10 d.coefficient)

/-- Where the decimal point stands, counted from before the first digit. -/
def point (d : Decimal) : Int :=
  (Nat.toDigits 10 d.coefficient).length + d.exponent

end Decimal

/-! ### The two layouts -/

namespace Layout

/-- The smallest magnitude that is laid out in full. -/
def fullFrom : Magnitude := (⟨1, -6⟩ : Decimal).toMagnitude

/-- The smallest magnitude above those that are laid out in full. -/
def fullBelow : Magnitude := (⟨1, 21⟩ : Decimal).toMagnitude

/-- All places up to the point and behind it. -/
def full (digits : List Char) (point : Int) : List Char :=
  if point ≤ 0 then
    '0' :: '.' :: (List.replicate (-point).toNat '0' ++ digits)
  else if digits.length ≤ point.toNat then
    digits ++ List.replicate (point.toNat - digits.length) '0'
  else
    digits.take point.toNat ++ '.' :: digits.drop point.toNat

/-- An exponent with its sign. -/
def exponent (e : Int) : List Char :=
  (if e < 0 then '-' else '+') :: Nat.toDigits 10 e.natAbs

/-- One digit, the others behind the point if there are any, and the exponent. -/
def scientific (digits : List Char) (point : Int) : List Char :=
  let behind := digits.drop 1
  digits.take 1 ++ (if behind.isEmpty then [] else '.' :: behind) ++ 'e' :: exponent (point - 1)

end Layout

/-! ### Texts -/

def Magnitude.chars (m : Magnitude) : List Char :=
  if m.isZero then ['0']
  else if !m.isFinite then "Infinity".toList
  else
    let d := m.shortest
    if Layout.fullFrom.rank ≤ m.rank ∧ m.rank < Layout.fullBelow.rank then
      Layout.full d.digits d.point
    else
      Layout.scientific d.digits d.point

namespace Number

def chars : Number → List Char
  | .nan => "NaN".toList
  | .signed negative m => if negative then '-' :: m.chars else m.chars

def text (x : Number) : String := String.ofList x.chars

end Number

end DequeMachine

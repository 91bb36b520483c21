/-
  DequeMachine/Number/Basic.lean
  ==============================
  **The numbers that the machine computes with.**

  A number is a signed magnitude or the one value that is not a number.  Sums
  and differences are formed exactly, in units, and rounded once; comparisons
  look at the exact values.  Both zeros are there and equal to each other; a sum
  that comes out as zero is the positive zero unless both parts were negative.
  Whole parts and remainders are numbers again, which are rounded like all others.

  A whole number of at most 53 bits is carried without loss (`ofInt`), which is
  what lets label indices and the results of the bitwise instructions live in
  the deque beside everything else.
-/
import DequeMachine.Number.Magnitude

namespace DequeMachine

/-- A double, all the patterns that stand for no number being one value. -/
inductive Number where
  | nan
  | signed (negative : Bool) (magnitude : Magnitude)
deriving DecidableEq, Repr

namespace Number

/-! ### Constants and bit patterns -/

def zero : Number := .signed false .zero

def infinity : Number := .signed false .infinity

abbrev signBit : Nat := Nat.pow 2 63

/-- The bit pattern; what is not a number has the quiet pattern without a sign
    and with no payload. -/
def toBits : Number → Nat
  | .nan => topRank + Nat.pow 2 51
  | .signed negative m => (if negative then signBit else 0) + m.rank

/-- The number that a bit pattern stands for: a rank under a sign, or no number
    when the rank lies past infinity. -/
def ofBits (bits : Nat) : Number :=
  let rank := bits % signBit
  if h : rank ≤ topRank then .signed (bits / signBit % 2 == 1) ⟨rank, h⟩ else .nan

/-! ### Exact values -/

def signedUnits (negative : Bool) (m : Magnitude) : Int :=
  if negative then -m.units else m.units

/-- The exact value in units, for all that has a place on the line.  The
    infinities stand one step outside the finite numbers. -/
def units? : Number → Option Int
  | .nan => none
  | .signed negative m => some (signedUnits negative m)

/-- The number nearest to a whole number of units, where `negativeZero` says
    which of the zeros stands for nothing at all. -/
def ofUnits (negativeZero : Bool) (units : Int) : Number :=
  .signed (if units = 0 then negativeZero else decide (units < 0)) (.ofUnits units.natAbs)

def ofInt (n : Int) : Number := ofUnits false (n * (unitsPerOne : Nat))

def ofNat (n : Nat) : Number := .signed false (.ofNat n)

/-! ### Classes -/

/-- Is this neither an infinity nor no number? -/
def isFinite : Number → Bool
  | .nan => false
  | .signed _ m => m.isFinite

def isZero : Number → Bool
  | .nan => false
  | .signed _ m => m.isZero

/-- Does this count as a yes?  The zeros and what is not a number do not. -/
def isTruthy : Number → Bool
  | .nan => false
  | .signed _ m => !m.isZero

/-! ### Arithmetic -/

def neg : Number → Number
  | .nan => .nan
  | .signed negative m => .signed (!negative) m

/-- The sum.  Infinities of opposite signs have none. -/
def add : Number → Number → Number
  | .signed s a, .signed t b =>
    if !a.isFinite then
      if b.isFinite || s == t then .signed s a else .nan
    else if !b.isFinite then .signed t b
    else ofUnits (s && t) (signedUnits s a + signedUnits t b)
  | _, _ => .nan

/-- The difference, as the sum with the second number under the other sign. -/
def sub (x y : Number) : Number := x.add y.neg

instance : Neg Number := ⟨neg⟩
instance : Add Number := ⟨add⟩
instance : Sub Number := ⟨sub⟩

/-! ### Comparisons

All three are false as soon as one side is not a number. -/

def less (x y : Number) : Bool :=
  match x.units?, y.units? with
  | some a, some b => a < b
  | _, _ => false

def atMost (x y : Number) : Bool :=
  match x.units?, y.units? with
  | some a, some b => a ≤ b
  | _, _ => false

def equals (x y : Number) : Bool :=
  match x.units?, y.units? with
  | some a, some b => a == b
  | _, _ => false

/-! ### Whole parts and remainders -/

def abs : Number → Number
  | .nan => .nan
  | .signed _ m => .signed false m

/-- The number with its fraction cut off, under its own sign. -/
def whole : Number → Number
  | .nan => .nan
  | .signed negative m => .signed negative (if m.isFinite then .ofNat m.floor else m)

/-- What is left of a number when another one has been taken away from it as often as it
    fits in, under the sign of the first. -/
def remainder : Number → Number → Number
  | .signed negative a, .signed _ b =>
    if !a.isFinite || b.isZero then .nan
    else if !b.isFinite then .signed negative a
    else .signed negative (.ofUnits (a.units % b.units))
  | _, _ => .nan

/-- The remainder, raised by one more of the second number if it is below zero. -/
def modulo (x y : Number) : Number :=
  let r := x.remainder y
  if r.less .zero then r + y.abs else r

/-- The whole part as a natural number that is not past a last one.  What is below zero or
    not a number gives 0. -/
def clamp (last : Nat) : Number → Nat
  | .nan => 0
  | .signed negative m => if negative then 0 else min m.floor last

/-- The natural number that this number is, if it is one. -/
def toNat? : Number → Option Nat
  | .nan => none
  | .signed negative m =>
    if m.isFinite && m.isWhole && (m.isZero || !negative) then some m.floor else none

end Number

end DequeMachine

/-
  DequeMachine/Number/Magnitude.lean
  ==================================
  **The non-negative doubles, counted off by rank.**

  A double without its sign is one of 2047 · 2^52 + 1 magnitudes in a row:
  zero, the subnormal numbers, the normal numbers binade by binade, and
  infinity at the end.  `Magnitude` keeps the place in this row, its *rank*.
  The rank is also the bit pattern of the double, so that comparing magnitudes
  is comparing ranks and the two neighbours of a magnitude are the ranks next
  to its own.

  What a rank is worth is a whole number of *units*, the unit being the
  smallest positive double, 2^-1074.  Every finite double is a whole number of
  units, and the number that would come after the largest finite one, 2^1024,
  is what the rank of infinity is worth.  All of the arithmetic is therefore
  arithmetic on natural numbers followed by one rounding, `nearest`, which takes
  a quotient in units to the nearest rank, a half going to the even one.
-/

namespace DequeMachine

/-! ### Ranks -/

abbrev binadeSize : Nat := Nat.pow 2 52

abbrev topRank : Nat := 2047 * Nat.pow 2 52

/-- How many units the number one is worth. -/
abbrev unitsPerOne : Nat := Nat.pow 2 1074

/-- A non-negative double, by its place in the row of all of them. -/
structure Magnitude where
  /-- The place, from 0 for zero to `topRank` for infinity. -/
  rank : Nat
  rank_le : rank ≤ topRank
deriving DecidableEq, Repr

namespace Magnitude

def zero : Magnitude := ⟨0, Nat.zero_le _⟩

def infinity : Magnitude := ⟨topRank, Nat.le_refl _⟩

def isZero (m : Magnitude) : Bool := m.rank == 0

def isFinite (m : Magnitude) : Bool := m.rank < topRank

end Magnitude

/-! ### What a rank is worth -/

/-- The units that a rank is worth.  The subnormal numbers and the first binade
    of normal ones count up in single units; from there on each binade doubles
    the step of the one before it. -/
def unitsAtRank (rank : Nat) : Nat :=
  let step := rank / binadeSize - 1
  (rank - step * binadeSize) * Nat.pow 2 step

/-- The last rank that is worth no more than so many units. -/
def rankBelow (units : Nat) : Nat :=
  let step := units.log2 - 52
  step * binadeSize + units / Nat.pow 2 step

def Magnitude.units (m : Magnitude) : Nat := unitsAtRank m.rank

/-! ### Rounding -/

/-- The rank nearest to `num / den` units, in a row without end.  Twice the
    quotient is compared with the sum of its two neighbours; a half goes to the
    even rank. -/
def nearestRank (num den : Nat) : Nat :=
  let below := rankBelow (num / den)
  let middle := unitsAtRank below + unitsAtRank (below + 1)
  if 2 * num < middle * den then below
  else if middle * den < 2 * num then below + 1
  else if below % 2 = 0 then below
  else below + 1

namespace Magnitude

/-- The magnitude nearest to `num / den` units: infinity takes all that rounds
    to its rank or past it. -/
def nearest (num den : Nat) : Magnitude :=
  ⟨min (nearestRank num den) topRank, Nat.min_le_right _ _⟩

def ofUnits (units : Nat) : Magnitude := nearest units 1

def ofNat (n : Nat) : Magnitude := ofUnits (n * unitsPerOne)

/-- The sum of two magnitudes, rounded once. -/
def add (a b : Magnitude) : Magnitude := ofUnits (a.units + b.units)

/-- A magnitude times a natural number, rounded once. -/
def scale (m : Magnitude) (n : Nat) : Magnitude := ofUnits (m.units * n)

def floor (m : Magnitude) : Nat := m.units / unitsPerOne

def isWhole (m : Magnitude) : Bool := m.units % unitsPerOne == 0

end Magnitude

end DequeMachine

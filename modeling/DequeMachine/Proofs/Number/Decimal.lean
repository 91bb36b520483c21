/-
  DequeMachine/Proofs/Number/Decimal.lean
  =======================================
  **Reading a decimal goes by its worth.**

  A decimal has a worth, which is a rational number, and the magnitude that it is
  read as depends on that alone: `Decimal.toMagnitude_congr`.  The shortcuts for
  decimals that are far too large or far too small do not change what is read.

  From this side the search for the shortest decimal is easy to trust.  It only
  gives out what reads back, and where it finds nothing the exact expansion of
  the magnitude stands in, which reads back as well (`toMagnitude_shortest`).
-/
import DequeMachine.Number.Decimal
import DequeMachine.Proofs.Number.Rounding
import Mathlib.Algebra.Order.Ring.Nat
import Mathlib.Data.Rat.Cast.Order
import Mathlib.Tactic.FieldSimp
import Mathlib.Tactic.NormNum

namespace DequeMachine

namespace Decimal

/-! ### The worth of a decimal -/

/-- The rational number that a decimal stands for. -/
def worth (d : Decimal) : ℚ := d.coefficient * 10 ^ d.exponent

/-- The worth as a quotient of natural numbers, the power of ten being on the side
    that its sign tells. -/
theorem worth_eq_div (d : Decimal) :
    d.worth = ((d.coefficient * 10 ^ d.exponent.toNat : Nat) : ℚ) /
      ((10 ^ (-d.exponent).toNat : Nat) : ℚ) := by
  obtain ⟨coefficient, exponent⟩ := d
  rcases Int.le_total 0 exponent with hexp | hexp
  · obtain ⟨n, rfl⟩ := Int.eq_ofNat_of_zero_le hexp
    simp [worth]
  · obtain ⟨n, hn⟩ := Int.eq_ofNat_of_zero_le (Int.neg_nonneg_of_nonpos hexp)
    obtain rfl : exponent = -(n : Int) := by omega
    simp [worth, div_eq_mul_inv]

/-! ### Reading without shortcuts -/

/-- A coefficient of some binary length is small against ten to that length, so
    that a decimal below 10^-324 is worth less than half a unit. -/
theorem two_mul_units_lt {coefficient n : Nat} (h : coefficient.log2 + 324 < n) :
    2 * (coefficient * unitsPerOne) < 10 ^ n := by
  have hlog : coefficient < 2 ^ (coefficient.log2 + 1) := Nat.lt_log2_self
  have hconst : 4 * unitsPerOne ≤ 10 ^ 325 := by decide +kernel
  have hpos := zero_lt_unitsPerOne
  generalize unitsPerOne = unit at *
  calc 2 * (coefficient * unit)
      < 2 * (2 ^ (coefficient.log2 + 1) * unit) :=
        Nat.mul_lt_mul_of_pos_left (Nat.mul_lt_mul_of_pos_right hlog hpos) (by decide)
    _ = 2 ^ coefficient.log2 * (4 * unit) := by
        rw [pow_succ]
        ring
    _ ≤ 10 ^ coefficient.log2 * 10 ^ 325 :=
        Nat.mul_le_mul (pow_le_pow_left₀ (by decide) (by decide) _) hconst
    _ = 10 ^ (coefficient.log2 + 325) := (pow_add 10 _ _).symm
    _ ≤ 10 ^ n := pow_le_pow_right₀ (by decide) (by omega)

/-- The shortcuts agree with the rounding that they save. -/
theorem toMagnitude_eq_nearest (d : Decimal) :
    d.toMagnitude = .nearest (d.coefficient * 10 ^ d.exponent.toNat * unitsPerOne)
      (10 ^ (-d.exponent).toNat) := by
  unfold toMagnitude
  split
  · rename_i hzero
    refine (Magnitude.nearest_eq_zero ?_).symm
    rw [hzero, Nat.zero_mul, Nat.zero_mul]
    positivity
  · rename_i hpos
    split
    · rename_i hlarge
      refine (Magnitude.nearest_eq_infinity (by positivity) ?_).symm
      have hden : (-d.exponent).toNat = 0 := by omega
      have hconst : 2 ^ 1024 ≤ 10 ^ 310 := by decide +kernel
      have hpow : 10 ^ 310 ≤ 10 ^ d.exponent.toNat := pow_le_pow_right₀ (by decide) (by omega)
      have hcoeff : 10 ^ d.exponent.toNat ≤ d.coefficient * 10 ^ d.exponent.toNat :=
        Nat.le_mul_of_pos_left _ (Nat.pos_of_ne_zero hpos)
      rw [hden, Nat.pow_zero, Nat.mul_one]
      exact Nat.mul_le_mul_right _ (hconst.trans (hpow.trans hcoeff))
    · split
      · rename_i hsmall
        refine (Magnitude.nearest_eq_zero ?_).symm
        have hnum : d.exponent.toNat = 0 := by omega
        rw [hnum, Nat.pow_zero, Nat.mul_one]
        exact two_mul_units_lt (by omega)
      · rfl

/-- Decimals of the same worth are read as the same magnitude. -/
theorem toMagnitude_congr {d d' : Decimal} (h : d.worth = d'.worth) :
    d.toMagnitude = d'.toMagnitude := by
  rw [worth_eq_div, worth_eq_div] at h
  rw [toMagnitude_eq_nearest, toMagnitude_eq_nearest]
  apply Magnitude.nearest_congr (by positivity) (by positivity)
  have hden : ((10 ^ (-d.exponent).toNat : Nat) : ℚ) ≠ 0 := by positivity
  have hden' : ((10 ^ (-d'.exponent).toNat : Nat) : ℚ) ≠ 0 := by positivity
  have hcross := (div_eq_div_iff hden hden').mp h
  have hnat : d.coefficient * 10 ^ d.exponent.toNat * 10 ^ (-d'.exponent).toNat =
      d'.coefficient * 10 ^ d'.exponent.toNat * 10 ^ (-d.exponent).toNat := by
    exact_mod_cast hcross
  calc d.coefficient * 10 ^ d.exponent.toNat * unitsPerOne * 10 ^ (-d'.exponent).toNat
      = d.coefficient * 10 ^ d.exponent.toNat * 10 ^ (-d'.exponent).toNat * unitsPerOne :=
        Nat.mul_right_comm ..
    _ = d'.coefficient * 10 ^ d'.exponent.toNat * 10 ^ (-d.exponent).toNat * unitsPerOne := by
        rw [hnat]
    _ = d'.coefficient * 10 ^ d'.exponent.toNat * unitsPerOne * 10 ^ (-d.exponent).toNat :=
        Nat.mul_right_comm ..

end Decimal

namespace Magnitude

/-! ### The shortest decimal reads back -/

theorem toMagnitude_expansion (m : Magnitude) : m.expansion.toMagnitude = m := by
  have hten : Nat.pow 5 1074 * unitsPerOne = 10 ^ 1074 := by
    obtain ⟨n, hn, hone⟩ : ∃ n, 1074 = n ∧ unitsPerOne = 2 ^ n := ⟨_, rfl, unitsPerOne_eq⟩
    rw [hn, hone]
    exact (Nat.mul_pow 5 2 n).symm
  have hnum : m.expansion.exponent.toNat = 0 := rfl
  have hden : (-m.expansion.exponent).toNat = 1074 := rfl
  rw [Decimal.toMagnitude_eq_nearest, hnum, hden, Nat.pow_zero, Nat.mul_one, expansion,
    Nat.mul_assoc, hten]
  exact nearest_units m (by positivity)

theorem toMagnitude_of_closestOnGrid? {m : Magnitude} {exponent : Int} {d : Decimal}
    (h : m.closestOnGrid? exponent = some d) : d.toMagnitude = m := by
  simp only [closestOnGrid?] at h
  split at h
  · rename_i hbelow
    split at h
    · rename_i habove
      cases h
      exact habove.1
    · cases h
      exact hbelow
  · split at h
    · rename_i habove
      cases h
      exact habove
    · cases h

/-- **The shortest decimal of a magnitude reads back as that magnitude.** -/
theorem toMagnitude_shortest (m : Magnitude) : m.shortest.toMagnitude = m := by
  unfold shortest
  rcases hfound : (List.range digitsEnough).findSome? fun i =>
      m.closestOnGrid? (m.pointPlace - (i + 1 : Nat)) with _ | d
  · exact toMagnitude_expansion m
  · obtain ⟨i, _, hi⟩ := List.exists_of_findSome?_eq_some hfound
    exact toMagnitude_of_closestOnGrid? hi

theorem coefficient_shortest_ne_zero {m : Magnitude} (hm : m.isZero = false) :
    m.shortest.coefficient ≠ 0 := by
  intro hzero
  have hread := toMagnitude_shortest m
  rw [Decimal.toMagnitude, if_pos hzero] at hread
  rw [← hread] at hm
  exact absurd hm (by decide)

end Magnitude

end DequeMachine

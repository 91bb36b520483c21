/-
  DequeMachine/Proofs/Number/Shortest.lean
  ========================================
  **The search for a short decimal finds the best one.**

  The decimals with so many digits near a magnitude are the points of a grid, and the
  search looks at two points of each grid, the ones next to the magnitude.  That is
  enough because what a magnitude is nearest to has no gaps: whenever some point of a
  grid reads back, so does the one on the same side that is next to the magnitude
  (`exists_closestOnGrid?_eq_some`).

  A decimal with few digits need not lie on the grid for that many, but one that reads back
  has a point of the grid that reads back and is no farther away (`exists_on_grid`): either it
  is on the grid itself, or it is beneath the decade of the magnitude, and then the lower end
  of that decade stands between the two.  With 17 digits the grid is so fine that one of the
  two points always reads back (`exists_isNearest_on_grid`).  The first grid that gives
  something out therefore has the fewest digits, and what it gives out is the nearest decimal
  with that many digits (`exists_digits_shortest`).
-/
import DequeMachine.Proofs.Number.Nearest
import Mathlib.Algebra.Order.Field.Power

namespace DequeMachine

/-! ### Counting digits -/

theorem digitCountFrom_spec {n tries start : Nat} (hlow : 10 ^ (start - 1) ≤ n)
    (hhigh : n < 10 ^ (start + tries)) :
    10 ^ (digitCountFrom n tries start - 1) ≤ n ∧ n < 10 ^ digitCountFrom n tries start := by
  induction tries generalizing start with
  | zero => exact ⟨hlow, hhigh⟩
  | succ tries ih =>
    unfold digitCountFrom
    split
    · rename_i hlt
      exact ⟨hlow, hlt⟩
    · rename_i hge
      refine ih (Nat.not_lt.mp hge) ?_
      rwa [Nat.add_assoc, Nat.add_comm 1]

theorem ten_pow_le_two_pow (n : Nat) : 10 ^ (3 * n / 10) ≤ 2 ^ n := by
  have hpow : (10 ^ (3 * n / 10)) ^ 10 ≤ (2 ^ n) ^ 10 :=
    calc (10 ^ (3 * n / 10)) ^ 10 = 10 ^ (3 * n / 10 * 10) := (pow_mul 10 _ _).symm
      _ ≤ 10 ^ (3 * n) := pow_le_pow_right₀ (by decide) (Nat.div_mul_le_self _ _)
      _ = (10 ^ 3) ^ n := pow_mul 10 3 n
      _ ≤ (2 ^ 10) ^ n := pow_le_pow_left₀ (by decide) (by decide) n
      _ = (2 ^ n) ^ 10 := pow_right_comm 2 10 n
  exact le_of_pow_le_pow_left₀ (by decide) (Nat.zero_le _) hpow

theorem digitCount_spec {n : Nat} (hn : n ≠ 0) :
    10 ^ (digitCount n - 1) ≤ n ∧ n < 10 ^ digitCount n := by
  apply digitCountFrom_spec
  · calc 10 ^ (3 * n.log2 / 10 - 1) ≤ 10 ^ (3 * n.log2 / 10) :=
          pow_le_pow_right₀ (by decide) (Nat.sub_le _ _)
      _ ≤ 2 ^ n.log2 := ten_pow_le_two_pow _
      _ ≤ n := Nat.log2_self_le hn
  · calc n < 2 ^ (n.log2 + 1) := Nat.lt_log2_self
      _ ≤ 10 ^ (n.log2 + 1) := pow_le_pow_left₀ (by decide) (by decide) _
      _ ≤ 10 ^ (3 * n.log2 / 10 + (n.log2 + 2)) := pow_le_pow_right₀ (by decide) (by omega)

namespace Magnitude

/-! ### The decade of a magnitude -/

theorem worth_pos {m : Magnitude} (hzero : m.isZero = false) : 0 < m.worth := by
  rw [worth_eq_units_div]
  exact div_pos (Nat.cast_pos.mpr (units_pos hzero)) unitsPerOne_pos

/-- Where the decade of a magnitude is, from the number of digits that it has in small
    parts. -/
theorem decade_of_parts {m : Magnitude} (hzero : m.isZero = false) {shift : Nat}
    (hunit : unitsPerOne ≤ Nat.pow 10 shift) :
    10 ^ ((digitCount (m.units * Nat.pow 10 shift / unitsPerOne) : Nat) - (shift : Int) - 1) ≤
        m.worth ∧
      m.worth <
        10 ^ ((digitCount (m.units * Nat.pow 10 shift / unitsPerOne) : Nat) - (shift : Int)) := by
  rw [Nat.pow_eq] at *
  have hscaled : m.worth * 10 ^ shift = (m.units * 10 ^ shift : Nat) / (unitsPerOne : Nat) := by
    rw [worth_eq_units_div]
    push_cast
    ring
  have hpos : 0 < unitsPerOne := Nat.cast_pos.mp unitsPerOne_pos
  have hne : m.units * 10 ^ shift / unitsPerOne ≠ 0 := by
    have hle : unitsPerOne ≤ m.units * 10 ^ shift :=
      hunit.trans (Nat.le_mul_of_pos_left _ (units_pos hzero))
    exact (Nat.div_pos hle hpos).ne'
  obtain ⟨hlow, hhigh⟩ := digitCount_spec hne
  have hcount : digitCount (m.units * 10 ^ shift / unitsPerOne) ≠ 0 := by
    intro hcount
    rw [hcount] at hhigh
    exact hne (Nat.lt_one_iff.mp hhigh)
  have hten : (0 : ℚ) < 10 ^ shift := by positivity
  generalize digitCount (m.units * 10 ^ shift / unitsPerOne) = count at *
  constructor
  · rw [← mul_le_mul_iff_left₀ hten, hscaled, le_div_iff₀ unitsPerOne_pos]
    have hpower :
        (10 : ℚ) ^ ((count : Int) - shift - 1) * 10 ^ shift = (10 ^ (count - 1) : Nat) := by
      rw [← zpow_natCast, ← zpow_add₀ (by norm_num), Nat.cast_pow, Nat.cast_ofNat, ← zpow_natCast]
      congr 1
      omega
    rw [hpower]
    exact_mod_cast (Nat.le_div_iff_mul_le hpos).mp hlow
  · rw [← mul_lt_mul_iff_left₀ hten, hscaled, div_lt_iff₀ unitsPerOne_pos]
    have hpower : (10 : ℚ) ^ ((count : Int) - shift) * 10 ^ shift = (10 ^ count : Nat) := by
      rw [← zpow_natCast, ← zpow_add₀ (by norm_num), Nat.cast_pow, Nat.cast_ofNat, ← zpow_natCast]
      congr 1
      omega
    rw [hpower]
    exact_mod_cast (Nat.div_lt_iff_lt_mul hpos).mp hhigh

/-- A magnitude lies in the decade that ends at its place of the point. -/
theorem pointPlace_spec {m : Magnitude} (hzero : m.isZero = false) :
    10 ^ (m.pointPlace - 1) ≤ m.worth ∧ m.worth < 10 ^ m.pointPlace := by
  have hunit : unitsPerOne ≤ Nat.pow 10 324 := by decide +kernel
  have hdecade := decade_of_parts hzero hunit
  rwa [Nat.cast_ofNat] at hdecade

/-! ### The two points of a grid -/

/-- The last point of a grid that is not above a magnitude, counted from zero. -/
def gridBelow (m : Magnitude) (exponent : Int) : Nat :=
  m.units * Nat.pow 10 (-exponent).toNat / (unitsPerOne * Nat.pow 10 exponent.toNat)

/-- A multiple of a magnitude against a point of a grid, in natural numbers. -/
theorem mul_pow_le_mul_worth_iff (m : Magnitude) (exponent : Int) (a b : Nat) :
    (a : ℚ) * 10 ^ exponent ≤ b * m.worth ↔
      a * (unitsPerOne * Nat.pow 10 exponent.toNat) ≤
        b * (m.units * Nat.pow 10 (-exponent).toNat) := by
  rw [worth_eq_units_div, ← mul_div_assoc, le_div_iff₀ unitsPerOne_pos, Nat.pow_eq, Nat.pow_eq]
  generalize unitsPerOne = unit
  rcases Int.le_total 0 exponent with hexp | hexp
  · obtain ⟨n, rfl⟩ := Int.eq_ofNat_of_zero_le hexp
    have hneg : (-(n : Int)).toNat = 0 := by omega
    rw [hneg, Int.toNat_natCast, pow_zero, mul_one, zpow_natCast, mul_right_comm, mul_assoc]
    exact_mod_cast Iff.rfl
  · obtain ⟨n, hn⟩ := Int.eq_ofNat_of_zero_le (Int.neg_nonneg_of_nonpos hexp)
    obtain rfl : exponent = -(n : Int) := by omega
    have hneg : (-(n : Int)).toNat = 0 := by omega
    rw [hneg, neg_neg, Int.toNat_natCast, pow_zero, mul_one, zpow_neg, zpow_natCast,
      mul_right_comm, mul_inv_le_iff₀ (by positivity), ← mul_assoc]
    exact_mod_cast Iff.rfl

theorem gridBelow_spec (m : Magnitude) (exponent : Int) :
    (m.gridBelow exponent : ℚ) * 10 ^ exponent ≤ m.worth ∧
      m.worth < ((m.gridBelow exponent + 1 : Nat) : ℚ) * 10 ^ exponent := by
  have hpos : 0 < unitsPerOne * Nat.pow 10 exponent.toNat :=
    Nat.mul_pos (Nat.cast_pos.mp unitsPerOne_pos) (Nat.pow_pos (by decide))
  have hiff := fun a => m.mul_pow_le_mul_worth_iff exponent a 1
  simp only [Nat.cast_one, one_mul] at hiff
  rw [← not_le, hiff, hiff, not_le]
  exact ⟨Nat.div_mul_le_self _ _, (Nat.div_lt_iff_lt_mul hpos).mp (Nat.lt_succ_self _)⟩

theorem closestOnGrid?_eq (m : Magnitude) (exponent : Int) :
    m.closestOnGrid? exponent =
      if (⟨m.gridBelow exponent, exponent⟩ : Decimal).toMagnitude = m then
        if (⟨m.gridBelow exponent + 1, exponent⟩ : Decimal).toMagnitude = m ∧
            (2 * m.gridBelow exponent + 1) * (unitsPerOne * Nat.pow 10 exponent.toNat) ≤
              2 * (m.units * Nat.pow 10 (-exponent).toNat) then
          some ⟨m.gridBelow exponent + 1, exponent⟩
        else some ⟨m.gridBelow exponent, exponent⟩
      else if (⟨m.gridBelow exponent + 1, exponent⟩ : Decimal).toMagnitude = m then
        some ⟨m.gridBelow exponent + 1, exponent⟩
      else none := rfl

theorem closestOnGrid?_cases (m : Magnitude) (exponent : Int) :
    (m.closestOnGrid? exponent = none ∧
      ¬m.IsNearest (m.gridBelow exponent * 10 ^ exponent) ∧
      ¬m.IsNearest ((m.gridBelow exponent + 1 : Nat) * 10 ^ exponent)) ∨
    (m.closestOnGrid? exponent = some ⟨m.gridBelow exponent, exponent⟩ ∧
      (m.IsNearest ((m.gridBelow exponent + 1 : Nat) * 10 ^ exponent) →
        |m.worth - m.gridBelow exponent * 10 ^ exponent| ≤
          |m.worth - (m.gridBelow exponent + 1 : Nat) * 10 ^ exponent|)) ∨
    (m.closestOnGrid? exponent = some ⟨m.gridBelow exponent + 1, exponent⟩ ∧
      (m.IsNearest (m.gridBelow exponent * 10 ^ exponent) →
        |m.worth - (m.gridBelow exponent + 1 : Nat) * 10 ^ exponent| ≤
          |m.worth - m.gridBelow exponent * 10 ^ exponent|)) := by
  have hbelow : (⟨m.gridBelow exponent, exponent⟩ : Decimal).toMagnitude = m ↔
      m.IsNearest (m.gridBelow exponent * 10 ^ exponent) := Decimal.toMagnitude_eq_iff
  have habove : (⟨m.gridBelow exponent + 1, exponent⟩ : Decimal).toMagnitude = m ↔
      m.IsNearest ((m.gridBelow exponent + 1 : Nat) * 10 ^ exponent) := Decimal.toMagnitude_eq_iff
  have horder : (m.gridBelow exponent : ℚ) * 10 ^ exponent <
      (m.gridBelow exponent + 1 : Nat) * 10 ^ exponent :=
    mul_lt_mul_of_pos_right (Nat.cast_lt.mpr (Nat.lt_succ_self _)) (by positivity)
  have hmiddle : (2 * m.gridBelow exponent + 1) * (unitsPerOne * Nat.pow 10 exponent.toNat) ≤
        2 * (m.units * Nat.pow 10 (-exponent).toNat) ↔
      (m.gridBelow exponent : ℚ) * 10 ^ exponent +
        (m.gridBelow exponent + 1 : Nat) * 10 ^ exponent ≤ 2 * m.worth := by
    have hsum : (m.gridBelow exponent : ℚ) * 10 ^ exponent +
        (m.gridBelow exponent + 1 : Nat) * 10 ^ exponent =
          (2 * m.gridBelow exponent + 1 : Nat) * 10 ^ exponent := by
      push_cast
      ring
    rw [hsum, ← mul_pow_le_mul_worth_iff, Nat.cast_ofNat]
  rw [closestOnGrid?_eq]
  split
  · split
    · rename_i hcloser
      have hle := (abs_sub_le_abs_sub_iff horder).mpr (hmiddle.mp hcloser.2)
      exact .inr (.inr ⟨rfl, fun _ => hle⟩)
    · rename_i hcloser
      refine .inr (.inl ⟨rfl, fun hreads' => ?_⟩)
      have hless := not_le.mp fun hle => hcloser ⟨habove.mpr hreads', hmiddle.mpr hle⟩
      exact (abs_sub_le_abs_sub_iff' horder).mpr hless.le
  · rename_i hnot
    rw [hbelow] at hnot
    split
    · exact .inr (.inr ⟨rfl, fun hreads => absurd hreads hnot⟩)
    · rename_i hnot'
      rw [habove] at hnot'
      exact .inl ⟨rfl, hnot, hnot'⟩

section Grid

variable {m : Magnitude} (hm : m.isFinite = true) {exponent : Int} {n : Nat}
  (hnearest : m.IsNearest (n * 10 ^ exponent))
include hm hnearest

/-- If a point on one side reads back, then so does the one there that is next to the magnitude,
    and it is no farther away. -/
theorem isNearest_gridBelow (hn : n ≤ m.gridBelow exponent) :
    m.IsNearest (m.gridBelow exponent * 10 ^ exponent) ∧
      |m.worth - m.gridBelow exponent * 10 ^ exponent| ≤ |m.worth - n * 10 ^ exponent| := by
  have hstep : (0 : ℚ) < 10 ^ exponent := by positivity
  have hle : (n : ℚ) * 10 ^ exponent ≤ m.gridBelow exponent * 10 ^ exponent :=
    mul_le_mul_of_nonneg_right (Nat.cast_le.mpr hn) hstep.le
  have hbelow := (m.gridBelow_spec exponent).1
  refine ⟨hnearest.between (isNearest_worth hm) hle hbelow, ?_⟩
  rw [abs_of_nonneg (by linarith), abs_of_nonneg (by linarith)]
  linarith

theorem isNearest_gridAbove (hn : m.gridBelow exponent < n) :
    m.IsNearest ((m.gridBelow exponent + 1 : Nat) * 10 ^ exponent) ∧
      |m.worth - (m.gridBelow exponent + 1 : Nat) * 10 ^ exponent| ≤
        |m.worth - n * 10 ^ exponent| := by
  have hstep : (0 : ℚ) < 10 ^ exponent := by positivity
  have hle : ((m.gridBelow exponent + 1 : Nat) : ℚ) * 10 ^ exponent ≤ n * 10 ^ exponent :=
    mul_le_mul_of_nonneg_right (Nat.cast_le.mpr hn) hstep.le
  have habove := (m.gridBelow_spec exponent).2
  refine ⟨(isNearest_worth hm).between hnearest habove.le hle, ?_⟩
  rw [abs_of_nonpos (by linarith), abs_of_nonpos (by linarith)]
  linarith

/-- **Where a point of a grid reads back, the search gives out one that is no farther away.** -/
theorem exists_closestOnGrid?_eq_some :
    ∃ d : Decimal, m.closestOnGrid? exponent = some d ∧
      |m.worth - d.worth| ≤ |m.worth - n * 10 ^ exponent| := by
  rcases m.closestOnGrid?_cases exponent with ⟨_, hbelow, habove⟩ | ⟨hsome, hcloser⟩ |
    ⟨hsome, hcloser⟩
  · rcases Nat.lt_or_ge (m.gridBelow exponent) n with hn | hn
    · exact absurd (isNearest_gridAbove hm hnearest hn).1 habove
    · exact absurd (isNearest_gridBelow hm hnearest hn).1 hbelow
  · refine ⟨_, hsome, ?_⟩
    rcases Nat.lt_or_ge (m.gridBelow exponent) n with hn | hn
    · obtain ⟨hreads, hle⟩ := isNearest_gridAbove hm hnearest hn
      exact (hcloser hreads).trans hle
    · exact (isNearest_gridBelow hm hnearest hn).2
  · refine ⟨_, hsome, ?_⟩
    rcases Nat.lt_or_ge (m.gridBelow exponent) n with hn | hn
    · exact (isNearest_gridAbove hm hnearest hn).2
    · obtain ⟨hreads, hle⟩ := isNearest_gridBelow hm hnearest hn
      exact (hcloser hreads).trans hle

end Grid

/-! ### Few digits -/

theorem not_isNearest_zero {m : Magnitude} (hzero : m.isZero = false) : ¬m.IsNearest 0 := by
  intro hnearest
  have hsame : m = zero := hnearest.unique (isNearest_zero (zpow_nonneg two_pos.le _))
  rw [hsame] at hzero
  cases hzero

theorem ne_zero_of_isNearest {m : Magnitude} (hzero : m.isZero = false) {c j : Nat} {e : Int}
    (hc : c < 10 ^ j) (hnearest : m.IsNearest (c * 10 ^ e)) : j ≠ 0 := by
  rintro rfl
  rw [Nat.lt_one_iff.mp hc, Nat.cast_zero, zero_mul] at hnearest
  exact not_isNearest_zero hzero hnearest

theorem pow_mul_zpow_sub (a : Nat) (b : Int) : ((10 ^ a : Nat) : ℚ) * 10 ^ (b - a) = 10 ^ b := by
  rw [Nat.cast_pow, Nat.cast_ofNat, ← zpow_natCast, ← zpow_add₀ (by norm_num)]
  congr 1
  omega

/-- A decimal with few digits that is not beneath a decade is a point of the grid for that many
    digits there. -/
theorem exists_mul_eq_of_decade_le {c j : Nat} {e place : Int} (hc : c < 10 ^ j)
    (hdecade : (10 : ℚ) ^ (place - 1) ≤ c * 10 ^ e) :
    ∃ n : Nat, (n : ℚ) * 10 ^ (place - j) = c * 10 ^ e := by
  have hexp : place - 1 < j + e := by
    have hlt : (10 : ℚ) ^ (place - 1) < 10 ^ ((j : Int) + e) := by
      rw [zpow_add₀ (by norm_num), zpow_natCast]
      refine hdecade.trans_lt (mul_lt_mul_of_pos_right ?_ (by positivity))
      exact_mod_cast hc
    exact (zpow_lt_zpow_iff_right₀ (by norm_num)).mp hlt
  obtain ⟨k, rfl⟩ : ∃ k : Nat, e = place - j + k := ⟨(e - (place - j)).toNat, by omega⟩
  refine ⟨c * 10 ^ k, ?_⟩
  rw [zpow_add₀ (by norm_num) _ (k : Int), zpow_natCast]
  push_cast
  ring

/-- A decimal with few digits that reads back has a point of the grid for that many digits
    that reads back as well and is no farther away. -/
theorem exists_on_grid {m : Magnitude} (hm : m.isFinite = true) (hzero : m.isZero = false)
    {c j : Nat} {e : Int} (hc : c < 10 ^ j) (hnearest : m.IsNearest (c * 10 ^ e)) :
    ∃ n : Nat, m.IsNearest (n * 10 ^ (m.pointPlace - j)) ∧
      |m.worth - n * 10 ^ (m.pointPlace - j)| ≤ |m.worth - c * 10 ^ e| := by
  rcases lt_or_ge ((c : ℚ) * 10 ^ e) (10 ^ (m.pointPlace - 1)) with hbelow | hinside
  · -- the lower end of the decade is between the two
    obtain ⟨k, rfl⟩ := Nat.exists_eq_succ_of_ne_zero (ne_zero_of_isNearest hzero hc hnearest)
    have hlow := (pointPlace_spec hzero).1
    have hend : ((10 ^ k : Nat) : ℚ) * 10 ^ (m.pointPlace - (k + 1 : Nat)) =
        10 ^ (m.pointPlace - 1) := by
      have hexp : m.pointPlace - (k + 1 : Nat) = m.pointPlace - 1 - k := by omega
      rw [hexp, pow_mul_zpow_sub]
    refine ⟨10 ^ k, ?_⟩
    rw [hend]
    refine ⟨hnearest.between (isNearest_worth hm) hbelow.le hlow, ?_⟩
    rw [abs_of_nonneg (by linarith), abs_of_nonneg (by linarith)]
    linarith
  · obtain ⟨n, hn⟩ := exists_mul_eq_of_decade_le hc hinside
    refine ⟨n, ?_⟩
    rw [hn]
    exact ⟨hnearest, le_rfl⟩

/-! ### Enough digits -/

/-- The middles on the two sides of a magnitude are so far apart that the numbers between
    them take up more than one part in 2^53 of it. -/
theorem worth_le_middles {m : Magnitude} (hzero : m.isZero = false) :
    m.worth + 2 ^ 52 * rankWorth (m.rank - 1) ≤ 2 ^ 52 * rankWorth (m.rank + 1) := by
  obtain ⟨rank, hrank⟩ := Nat.exists_eq_succ_of_ne_zero (beq_eq_false_iff_ne.mp hzero)
  have hgap := unitsAtRank_le_binadeSize_mul rank
  have hcast : (unitsAtRank (rank + 1) : ℚ) + 2 ^ 52 * unitsAtRank rank ≤
      2 ^ 52 * unitsAtRank (rank + 2) := by
    exact_mod_cast hgap
  rw [worth_eq_rankWorth, hrank, Nat.succ_sub_one, rankWorth, rankWorth, rankWorth,
    ← mul_div_assoc, ← mul_div_assoc, ← add_div]
  exact div_le_div_of_nonneg_right hcast unitsPerOne_pos.le

/-- **The grid for 17 digits has a point that reads back.**  Its step is less than the
    distance between the middles on the two sides of the magnitude. -/
theorem exists_isNearest_on_grid {m : Magnitude} (hm : m.isFinite = true)
    (hzero : m.isZero = false) :
    ∃ n : Nat, m.IsNearest (n * 10 ^ (m.pointPlace - digitsEnough)) := by
  obtain ⟨hlow, hhigh⟩ := m.gridBelow_spec (m.pointPlace - digitsEnough)
  have hstep : (10 : ℚ) ^ (m.pointPlace - digitsEnough) * 10 ^ 16 ≤ m.worth := by
    rw [← zpow_natCast, ← zpow_add₀ (by norm_num)]
    refine le_trans (le_of_eq ?_) (pointPlace_spec hzero).1
    congr 1
    simp only [digitsEnough]
    omega
  have hgap := worth_le_middles hzero
  have hpos := worth_pos hzero
  have habove : m.worth < rankWorth (m.rank + 1) := by
    rw [worth_eq_rankWorth]
    exact rankWorth_strictMono (Nat.lt_succ_self _)
  have hbelow : rankWorth (m.rank - 1) ≤ m.worth := by
    rw [worth_eq_rankWorth]
    exact rankWorth_strictMono.monotone (Nat.sub_le _ _)
  -- were both points next to the magnitude past the middles, the step would be too long
  by_contra hnone
  push Not at hnone
  have hlow' := hnone (m.gridBelow (m.pointPlace - digitsEnough))
  have hhigh' := hnone (m.gridBelow (m.pointPlace - digitsEnough) + 1)
  push_cast at hhigh hhigh'
  generalize (10 : ℚ) ^ (m.pointPlace - digitsEnough) = step at *
  generalize (m.gridBelow (m.pointPlace - digitsEnough) : ℚ) = below at *
  have hmiddle : 2 * (below * step) ≤ rankWorth (m.rank - 1) + m.worth := by
    by_contra hlt
    exact hlow' (isNearest_of_middles hm (not_le.mp hlt) (by linarith))
  have hmiddle' : m.worth + rankWorth (m.rank + 1) ≤ 2 * ((below + 1) * step) := by
    by_contra hlt
    exact hhigh' (isNearest_of_middles hm (by linarith) (not_le.mp hlt))
  linarith

/-! ### The search -/

theorem exists_of_findSome?_range_eq_some {f : Nat → Option Decimal} {n : Nat} {d : Decimal}
    (h : (List.range n).findSome? f = some d) : ∃ i, f i = some d ∧ ∀ j < i, f j = none := by
  obtain ⟨before, i, behind, hrange, hi, hbefore⟩ := List.findSome?_eq_some_iff.mp h
  refine ⟨i, hi, fun j hj => hbefore j ?_⟩
  have hsorted : (before ++ i :: behind).Pairwise (· < ·) := hrange ▸ List.pairwise_lt_range
  have hmem : i ∈ List.range n := by
    rw [hrange]
    exact List.mem_append_right _ List.mem_cons_self
  have hj' : j ∈ before ++ i :: behind := by
    rw [← hrange, List.mem_range]
    exact hj.trans (List.mem_range.mp hmem)
  rcases List.mem_append.mp hj' with hj' | hj'
  · exact hj'
  · have hrest := List.pairwise_cons.mp (List.pairwise_append.mp hsorted).2.1
    rcases List.mem_cons.mp hj' with rfl | hj'
    · exact absurd hj (lt_irrefl _)
    · exact absurd hj (hrest.1 j hj').not_gt

/-- The search stops at the first grid that gives something out, and there is one. -/
theorem exists_shortest_eq {m : Magnitude} (hm : m.isFinite = true) (hzero : m.isZero = false) :
    ∃ i, m.closestOnGrid? (m.pointPlace - (i + 1 : Nat)) = some m.shortest ∧
      ∀ j < i, m.closestOnGrid? (m.pointPlace - (j + 1 : Nat)) = none := by
  obtain ⟨n, hn⟩ := exists_isNearest_on_grid hm hzero
  obtain ⟨d, hd, _⟩ := exists_closestOnGrid?_eq_some hm hn
  rcases hfound : (List.range digitsEnough).findSome? fun i =>
      m.closestOnGrid? (m.pointPlace - (i + 1 : Nat)) with _ | found
  · have hnone := List.findSome?_eq_none_iff.mp hfound 16 (by decide)
    rw [hd] at hnone
    cases hnone
  · rw [shortest, hfound, Option.getD_some]
    exact exists_of_findSome?_range_eq_some hfound

theorem coefficient_le_of_closestOnGrid? {m : Magnitude} (hzero : m.isZero = false) {n : Nat}
    {d : Decimal} (h : m.closestOnGrid? (m.pointPlace - n) = some d) : d.coefficient ≤ 10 ^ n := by
  have hbelow : m.gridBelow (m.pointPlace - n) < 10 ^ n := by
    have hlt := (m.gridBelow_spec (m.pointPlace - n)).1.trans_lt (pointPlace_spec hzero).2
    rw [← pow_mul_zpow_sub n m.pointPlace, mul_lt_mul_iff_left₀ (by positivity)] at hlt
    exact_mod_cast hlt
  rcases m.closestOnGrid?_cases (m.pointPlace - n) with ⟨hnone, _⟩ | ⟨hsome, _⟩ | ⟨hsome, _⟩
  · rw [hnone] at h
    cases h
  · rw [hsome] at h
    cases h
    exact hbelow.le
  · rw [hsome] at h
    cases h
    exact hbelow

/-- **The search finds the nearest decimal among those with the fewest digits.** -/
theorem exists_digits_shortest {m : Magnitude} (hm : m.isFinite = true)
    (hzero : m.isZero = false) :
    ∃ n : Nat, n ≠ 0 ∧ m.shortest.coefficient ≤ 10 ^ n ∧
      (∀ (c : Nat) (e : Int), c < 10 ^ (n - 1) → ¬m.IsNearest (c * 10 ^ e)) ∧
      ∀ (c : Nat) (e : Int), c < 10 ^ n → m.IsNearest (c * 10 ^ e) →
        |m.worth - m.shortest.worth| ≤ |m.worth - c * 10 ^ e| := by
  obtain ⟨i, hi, hfirst⟩ := exists_shortest_eq hm hzero
  refine ⟨i + 1, Nat.succ_ne_zero i, coefficient_le_of_closestOnGrid? hzero hi, ?_, ?_⟩
  · -- a decimal with fewer digits would show on a grid that came earlier
    intro c e hc hnearest
    obtain ⟨j, rfl⟩ := Nat.exists_eq_succ_of_ne_zero (ne_zero_of_isNearest hzero hc hnearest)
    obtain ⟨n, hn, _⟩ := exists_on_grid hm hzero hc hnearest
    obtain ⟨d, hd, _⟩ := exists_closestOnGrid?_eq_some hm hn
    have hnone := hfirst j (Nat.lt_succ_self j)
    rw [Nat.add_sub_cancel, hnone] at hd
    cases hd
  · intro c e hc hnearest
    obtain ⟨n, hn, hcloser⟩ := exists_on_grid hm hzero hc hnearest
    obtain ⟨d, hd, hclosest⟩ := exists_closestOnGrid?_eq_some hm hn
    rw [hi, Option.some.injEq] at hd
    rw [hd]
    exact hclosest.trans hcloser

end Magnitude

end DequeMachine

/-
  DequeMachine/Proofs/Number/Nearest.lean
  =======================================
  **The magnitude that is nearest to a number.**

  A magnitude is worth its significand times a power of two (`Magnitude.worth`).  Which
  magnitude is nearest to a rational number is said here without ranks and units: no
  other finite one is nearer, of two that are equally near the one with the even
  significand is meant, and infinity begins half way between the largest finite
  magnitude and the power of two behind it (`Magnitude.IsNearest`).

  There is never more than one such magnitude (`IsNearest.unique`), and rounding a
  quotient finds it (`nearest_isNearest`).  Since distances to two magnitudes are compared
  by looking at the middle between them, the numbers that a magnitude is nearest to have
  no gaps (`IsNearest.between`); the search for short decimals rests on that.
-/
import DequeMachine.Proofs.Number.Decimal
import Mathlib.Algebra.Order.Group.Abs
import Mathlib.Tactic.Linarith

namespace DequeMachine

/-! ### What a magnitude is worth -/

namespace Magnitude

/-- The fraction of the bit pattern, with the leading bit that is not stored for normal
    numbers. -/
def significand (m : Magnitude) : Nat :=
  if m.rank / binadeSize = 0 then m.rank % binadeSize else binadeSize + m.rank % binadeSize

/-- The power of two that the last bit of the significand stands for.  The subnormal
    numbers have the one of the first normal numbers. -/
def exponent (m : Magnitude) : Int := (max (m.rank / binadeSize) 1 : Nat) - 1075

def worth (m : Magnitude) : ℚ := m.significand * 2 ^ m.exponent

end Magnitude

def rankWorth (rank : Nat) : ℚ := unitsAtRank rank / unitsPerOne

theorem cast_two_pow (n : Nat) : ((Nat.pow 2 n : Nat) : ℚ) = 2 ^ n := by
  rw [Nat.pow_eq, Nat.cast_pow, Nat.cast_ofNat]

theorem cast_unitsPerOne : ((unitsPerOne : Nat) : ℚ) = 2 ^ 1074 := by
  simp only [unitsPerOne, cast_two_pow]

theorem unitsPerOne_pos : (0 : ℚ) < (unitsPerOne : Nat) := by
  rw [cast_unitsPerOne]
  positivity

theorem rankWorth_strictMono : StrictMono rankWorth := by
  intro a b h
  exact div_lt_div_of_pos_right (Nat.cast_lt.mpr (unitsAtRank_strictMono h)) unitsPerOne_pos

/-- The middle between the largest finite magnitude and the power of two behind it. -/
theorem rankWorth_add_topRank :
    rankWorth (topRank - 1) + rankWorth topRank = 2 * (2 ^ 1024 - 2 ^ 970) := by
  have hunits : unitsAtRank (topRank - 1) + unitsAtRank topRank + 2 * (2 ^ 970 * unitsPerOne) =
      2 * (2 ^ 1024 * unitsPerOne) := by decide +kernel
  have hcast := congrArg (Nat.cast (R := ℚ)) hunits
  simp only [Nat.cast_add, Nat.cast_mul, Nat.cast_ofNat, Nat.cast_pow] at hcast
  rw [rankWorth, rankWorth, ← add_div, div_eq_iff unitsPerOne_pos.ne', mul_assoc, sub_mul, mul_sub]
  exact eq_sub_of_add_eq hcast

namespace Magnitude

theorem worth_eq_rankWorth (m : Magnitude) : m.worth = rankWorth m.rank := by
  have hsplit := Nat.div_add_mod m.rank binadeSize
  have hunits : unitsAtRank m.rank = m.significand * 2 ^ (m.rank / binadeSize - 1) := by
    rw [unitsAtRank_eq, significand]
    generalize m.rank / binadeSize = binade at hsplit ⊢
    generalize m.rank % binadeSize = place at hsplit ⊢
    generalize binadeSize = size at hsplit ⊢
    rcases binade with _ | step
    · simp_all
    · rw [if_neg (Nat.succ_ne_zero step), Nat.add_sub_cancel, ← hsplit, Nat.mul_succ,
        Nat.mul_comm step]
      congr 1
      omega
  have hexponent : m.exponent = ((m.rank / binadeSize - 1 : Nat) : Int) - 1074 := by
    rw [exponent]
    omega
  rw [worth, rankWorth, hunits, hexponent, zpow_sub₀ (by norm_num), zpow_natCast,
    cast_unitsPerOne, Nat.cast_mul, Nat.cast_pow, Nat.cast_ofNat, mul_div_assoc]
  rfl

theorem worth_eq_units_div (m : Magnitude) : m.worth = (m.units : ℚ) / (unitsPerOne : Nat) :=
  worth_eq_rankWorth m

theorem worth_le_natCast_iff {m : Magnitude} {n : Nat} :
    m.worth ≤ n ↔ m.units ≤ n * unitsPerOne := by
  rw [worth_eq_units_div, div_le_iff₀ unitsPerOne_pos, ← Nat.cast_mul, Nat.cast_le]

theorem natCast_le_worth_iff {m : Magnitude} {n : Nat} :
    (n : ℚ) ≤ m.worth ↔ n * unitsPerOne ≤ m.units := by
  rw [worth_eq_units_div, le_div_iff₀ unitsPerOne_pos, ← Nat.cast_mul, Nat.cast_le]

theorem worth_eq_iff {m : Magnitude} {n : Nat} : m.worth = n ↔ m.units = n * unitsPerOne := by
  rw [le_antisymm_iff, worth_le_natCast_iff, natCast_le_worth_iff, Nat.le_antisymm_iff]

theorem units_pos {m : Magnitude} (hzero : m.isZero = false) : 0 < m.units := by
  have hrank : 0 < m.rank := Nat.pos_of_ne_zero (beq_eq_false_iff_ne.mp hzero)
  have := unitsAtRank_strictMono hrank
  rwa [unitsAtRank_zero] at this

theorem worth_lt_iff {a b : Magnitude} : a.worth < b.worth ↔ a.rank < b.rank := by
  rw [worth_eq_rankWorth, worth_eq_rankWorth, rankWorth_strictMono.lt_iff_lt]

theorem worth_le_iff {a b : Magnitude} : a.worth ≤ b.worth ↔ a.rank ≤ b.rank := by
  rw [worth_eq_rankWorth, worth_eq_rankWorth, rankWorth_strictMono.le_iff_le]

theorem worth_lt_or_gt_of_ne {a b : Magnitude} (h : a ≠ b) :
    a.worth < b.worth ∨ b.worth < a.worth := by
  rw [worth_lt_iff, worth_lt_iff]
  exact Nat.lt_or_gt_of_ne fun hrank => h (Magnitude.ext hrank)

@[simp] theorem worth_zero : zero.worth = 0 := by
  rw [worth_eq_rankWorth, rankWorth, zero, unitsAtRank_zero, Nat.cast_zero, zero_div]

theorem even_significand_iff (m : Magnitude) : Even m.significand ↔ m.rank % 2 = 0 := by
  have hrank : m.rank % binadeSize % 2 = m.rank % 2 := Nat.mod_mod_of_dvd _ (by decide)
  rw [significand, ← hrank, ← Nat.even_iff]
  split
  · rfl
  · rw [Nat.even_add]
    simp only [show Even binadeSize by decide, true_iff]

end Magnitude

/-! ### Comparing distances -/

section Distance

variable {q a b : ℚ}

theorem abs_sub_le_abs_sub_iff (h : a < b) : |q - b| ≤ |q - a| ↔ a + b ≤ 2 * q := by
  rcases abs_cases (q - a) with ⟨ha, _⟩ | ⟨ha, _⟩ <;>
    rcases abs_cases (q - b) with ⟨hb, _⟩ | ⟨hb, _⟩ <;>
      rw [ha, hb] <;> constructor <;> intro _ <;> linarith

theorem abs_sub_le_abs_sub_iff' (h : a < b) : |q - a| ≤ |q - b| ↔ 2 * q ≤ a + b := by
  rcases abs_cases (q - a) with ⟨ha, _⟩ | ⟨ha, _⟩ <;>
    rcases abs_cases (q - b) with ⟨hb, _⟩ | ⟨hb, _⟩ <;>
      rw [ha, hb] <;> constructor <;> intro _ <;> linarith

theorem abs_sub_eq_abs_sub_iff (h : a < b) : |q - a| = |q - b| ↔ 2 * q = a + b := by
  rw [le_antisymm_iff, abs_sub_le_abs_sub_iff h, abs_sub_le_abs_sub_iff' h, le_antisymm_iff]

end Distance

namespace Magnitude

/-! ### The nearest magnitude -/

/-- A magnitude is the one that is nearest to a number. -/
structure IsNearest (m : Magnitude) (q : ℚ) : Prop where
  /-- Infinity is nearest to all that is too large. -/
  isFinite_iff : m.isFinite = true ↔ q < 2 ^ 1024 - 2 ^ 970
  /-- No other finite magnitude is nearer. -/
  closest : m.isFinite = true → ∀ other : Magnitude, other.isFinite = true →
    |q - m.worth| ≤ |q - other.worth|
  /-- Of two that are equally near, it is the even one. -/
  even : m.isFinite = true → ∀ other : Magnitude, other.isFinite = true → other ≠ m →
    |q - m.worth| = |q - other.worth| → Even m.significand

/-- Being nearest, seen from the middles between magnitudes. -/
theorem isNearest_iff_of_isFinite {m : Magnitude} (hm : m.isFinite = true) {q : ℚ} :
    m.IsNearest q ↔ q < 2 ^ 1024 - 2 ^ 970 ∧
      (∀ other : Magnitude, other.worth < m.worth →
        other.worth + m.worth ≤ 2 * q ∧ (2 * q = other.worth + m.worth → Even m.significand)) ∧
      (∀ other : Magnitude, other.isFinite = true → m.worth < other.worth →
        2 * q ≤ m.worth + other.worth ∧
          (2 * q = m.worth + other.worth → Even m.significand)) := by
  constructor
  · intro h
    refine ⟨h.isFinite_iff.mp hm, ?_, ?_⟩
    · intro other hlt
      have hother : other.isFinite = true := by
        simp only [isFinite, decide_eq_true_eq] at hm ⊢
        exact (worth_lt_iff.mp hlt).trans hm
      have hne : other ≠ m := by
        rintro rfl
        exact lt_irrefl _ hlt
      refine ⟨(abs_sub_le_abs_sub_iff hlt).mp (h.closest hm other hother), fun heq => ?_⟩
      exact h.even hm other hother hne ((abs_sub_eq_abs_sub_iff hlt).mpr heq).symm
    · intro other hother hlt
      have hne : other ≠ m := by
        rintro rfl
        exact lt_irrefl _ hlt
      refine ⟨(abs_sub_le_abs_sub_iff' hlt).mp (h.closest hm other hother), fun heq => ?_⟩
      exact h.even hm other hother hne ((abs_sub_eq_abs_sub_iff hlt).mpr heq)
  · rintro ⟨hlimit, hbelow, habove⟩
    refine ⟨iff_of_true hm hlimit, fun _ other hother => ?_, fun _ other hother hne heq => ?_⟩
    · by_cases hsame : other = m
      · rw [hsame]
      · rcases worth_lt_or_gt_of_ne hsame with hlt | hlt
        · exact (abs_sub_le_abs_sub_iff hlt).mpr (hbelow other hlt).1
        · exact (abs_sub_le_abs_sub_iff' hlt).mpr (habove other hother hlt).1
    · rcases worth_lt_or_gt_of_ne hne with hlt | hlt
      · exact (hbelow other hlt).2 ((abs_sub_eq_abs_sub_iff hlt).mp heq.symm)
      · exact (habove other hother hlt).2 ((abs_sub_eq_abs_sub_iff hlt).mp heq)

/-- **Only one magnitude is nearest.**  Two that are equally near have an even significand
    each, so that there is a third one between them, which is nearer than both. -/
theorem IsNearest.unique {a b : Magnitude} {q : ℚ} (ha : a.IsNearest q) (hb : b.IsNearest q) :
    a = b := by
  have hfinite : a.isFinite = b.isFinite := by
    rw [Bool.eq_iff_iff, ha.isFinite_iff, hb.isFinite_iff]
  cases hkind : a.isFinite with
  | false =>
    rw [hkind] at hfinite
    have htop : ∀ m : Magnitude, m.isFinite = false → m.rank = topRank := by
      intro m hm
      simp only [isFinite, decide_eq_false_iff_not, not_lt] at hm
      exact Nat.le_antisymm m.rank_le hm
    exact Magnitude.ext ((htop a hkind).trans (htop b hfinite.symm).symm)
  | true =>
    have hkind' : b.isFinite = true := hfinite ▸ hkind
    clear hfinite
    wlog hlt : a.worth < b.worth generalizing a b
    · by_contra hne
      rcases worth_lt_or_gt_of_ne hne with h | h
      · exact hlt h
      · exact hne (this hb ha hkind' hkind h).symm
    have hequal : |q - a.worth| = |q - b.worth| :=
      le_antisymm (ha.closest hkind b hkind') (hb.closest hkind' a hkind)
    have hne : a ≠ b := by
      rintro rfl
      exact lt_irrefl _ hlt
    have hmiddle := (abs_sub_eq_abs_sub_iff hlt).mp hequal
    have hevenA := (even_significand_iff a).mp (ha.even hkind b hkind' hne.symm hequal)
    have hevenB := (even_significand_iff b).mp (hb.even hkind' a hkind hne hequal.symm)
    have hrank := worth_lt_iff.mp hlt
    have hinside : b.rank < topRank := by simpa [isFinite] using hkind'
    let between : Magnitude := ⟨a.rank + 1, by omega⟩
    have habove : a.worth < between.worth := worth_lt_iff.mpr (Nat.lt_succ_self _)
    have hbelow : between.worth < b.worth := worth_lt_iff.mpr (by show a.rank + 1 < b.rank; omega)
    have hbetween : between.isFinite = true := by
      simp only [isFinite, decide_eq_true_eq]
      show a.rank + 1 < topRank
      omega
    have := (abs_sub_le_abs_sub_iff' habove).mp (ha.closest hkind between hbetween)
    linarith

/-- **What a magnitude is nearest to has no gaps.** -/
theorem IsNearest.between {m : Magnitude} {a b q : ℚ} (ha : m.IsNearest a) (hb : m.IsNearest b)
    (haq : a ≤ q) (hqb : q ≤ b) : m.IsNearest q := by
  cases hm : m.isFinite with
  | false =>
    refine ⟨?_, fun hfinite => ?_, fun hfinite => ?_⟩
    · refine iff_of_false (Bool.eq_false_iff.mp hm) fun hlt => ?_
      exact Bool.eq_false_iff.mp hm (ha.isFinite_iff.mpr (haq.trans_lt hlt))
    · rw [hm] at hfinite
      cases hfinite
    · rw [hm] at hfinite
      cases hfinite
  | true =>
    obtain ⟨_, hbelow, _⟩ := (isNearest_iff_of_isFinite hm).mp ha
    obtain ⟨hlimit, _, habove⟩ := (isNearest_iff_of_isFinite hm).mp hb
    refine (isNearest_iff_of_isFinite hm).mpr ⟨hqb.trans_lt hlimit, fun other hlt => ?_,
      fun other hother hlt => ?_⟩
    · obtain ⟨hmiddle, heven⟩ := hbelow other hlt
      exact ⟨by linarith, fun heq => heven (by linarith)⟩
    · obtain ⟨hmiddle, heven⟩ := habove other hother hlt
      exact ⟨by linarith, fun heq => heven (by linarith)⟩

/-! ### Rounding finds it -/

section Rounding

variable {num den : Nat} (hden : 0 < den)
include hden

theorem middle_le_iff (a b : Nat) :
    rankWorth a + rankWorth b ≤ 2 * ((num : ℚ) / den / unitsPerOne) ↔
      (unitsAtRank a + unitsAtRank b) * den ≤ 2 * num := by
  have hden' : (0 : ℚ) < den := Nat.cast_pos.mpr hden
  rw [rankWorth, rankWorth, ← add_div, ← mul_div_assoc, div_le_div_iff_of_pos_right unitsPerOne_pos,
    ← mul_div_assoc, le_div_iff₀ hden']
  exact_mod_cast Iff.rfl

theorem le_middle_iff (a b : Nat) :
    2 * ((num : ℚ) / den / unitsPerOne) ≤ rankWorth a + rankWorth b ↔
      2 * num ≤ (unitsAtRank a + unitsAtRank b) * den := by
  have hden' : (0 : ℚ) < den := Nat.cast_pos.mpr hden
  rw [rankWorth, rankWorth, ← add_div, ← mul_div_assoc, div_le_div_iff_of_pos_right unitsPerOne_pos,
    ← mul_div_assoc, div_le_iff₀ hden']
  exact_mod_cast Iff.rfl

theorem eq_middle_iff (a b : Nat) :
    2 * ((num : ℚ) / den / unitsPerOne) = rankWorth a + rankWorth b ↔
      2 * num = (unitsAtRank a + unitsAtRank b) * den := by
  rw [le_antisymm_iff, le_middle_iff hden, middle_le_iff hden, Nat.le_antisymm_iff]

theorem lt_limit_iff :
    (num : ℚ) / den / unitsPerOne < 2 ^ 1024 - 2 ^ 970 ↔
      2 * num < (unitsAtRank (topRank - 1) + unitsAtRank topRank) * den := by
  rw [← not_le, ← not_le, ← middle_le_iff hden, rankWorth_add_topRank, not_iff_not,
    mul_le_mul_iff_right₀ two_pos]

/-- **A quotient is rounded to the magnitude that is nearest to it.** -/
theorem nearest_isNearest : (nearest num den).IsNearest ((num : ℚ) / den / unitsPerOne) := by
  have hfinite : (nearest num den).isFinite = true ↔ nearestRank num den < topRank := by
    simp [isFinite, nearest]
  have hlimit :=
    hfinite.trans ((nearestRank_lt_topRank_iff num hden).trans (lt_limit_iff hden).symm)
  cases hkind : (nearest num den).isFinite with
  | false =>
    refine ⟨hlimit, fun h => ?_, fun h => ?_⟩
    · rw [hkind] at h
      cases h
    · rw [hkind] at h
      cases h
  | true =>
    have hrank : (nearest num den).rank = nearestRank num den :=
      Nat.min_eq_left (Nat.le_of_lt (hfinite.mp hkind))
    obtain ⟨hbelow, habove⟩ := nearestRank_spec num hden
    refine (isNearest_iff_of_isFinite hkind).mpr ⟨hlimit.mp hkind, ?_, ?_⟩
    · intro other hlt
      rw [worth_lt_iff, hrank] at hlt
      rw [worth_eq_rankWorth, worth_eq_rankWorth, hrank, middle_le_iff hden, eq_middle_iff hden,
        even_significand_iff, hrank]
      exact hbelow other.rank hlt
    · intro other _ hlt
      rw [worth_lt_iff, hrank] at hlt
      rw [worth_eq_rankWorth, worth_eq_rankWorth, hrank, le_middle_iff hden, eq_middle_iff hden,
        even_significand_iff, hrank]
      exact habove other.rank hlt

end Rounding

/-! ### The ends of the row -/

theorem worth_lt_limit {m : Magnitude} (hm : m.isFinite = true) : m.worth < 2 ^ 1024 - 2 ^ 970 := by
  have hunits : m.worth = (m.units : ℚ) / ((1 : Nat) : ℚ) / unitsPerOne := by
    rw [Nat.cast_one, div_one, worth_eq_rankWorth, rankWorth, units]
  have hself : nearest m.units 1 = m := by
    have := nearest_units m Nat.one_pos
    rwa [Nat.mul_one] at this
  rw [hunits, ← (nearest_isNearest Nat.one_pos).isFinite_iff, hself, hm]

theorem isNearest_worth {m : Magnitude} (hm : m.isFinite = true) : m.IsNearest m.worth := by
  refine (isNearest_iff_of_isFinite hm).mpr
    ⟨worth_lt_limit hm, fun other hlt => ?_, fun other _ hlt => ?_⟩
  · exact ⟨by linarith, fun heq => by linarith⟩
  · exact ⟨by linarith, fun heq => by linarith⟩

/-- A magnitude is nearest to all that is strictly between the middles to its neighbours. -/
theorem isNearest_of_middles {m : Magnitude} (hm : m.isFinite = true) {q : ℚ}
    (hlow : rankWorth (m.rank - 1) + m.worth < 2 * q)
    (hhigh : 2 * q < m.worth + rankWorth (m.rank + 1)) : m.IsNearest q := by
  have hrank : m.rank < topRank := by simpa [isFinite] using hm
  rw [worth_eq_rankWorth] at hlow hhigh
  refine (isNearest_iff_of_isFinite hm).mpr ⟨?_, fun other hlt => ?_, fun other _ hlt => ?_⟩
  · have hlast : rankWorth m.rank ≤ rankWorth (topRank - 1) :=
      rankWorth_strictMono.monotone (Nat.le_sub_one_of_lt hrank)
    have htop : rankWorth (m.rank + 1) ≤ rankWorth topRank := rankWorth_strictMono.monotone hrank
    have hlimit := hhigh.trans_le (add_le_add hlast htop)
    rw [rankWorth_add_topRank] at hlimit
    exact lt_of_mul_lt_mul_left hlimit two_pos.le
  · have hother : rankWorth other.rank ≤ rankWorth (m.rank - 1) :=
      rankWorth_strictMono.monotone (Nat.le_sub_one_of_lt (worth_lt_iff.mp hlt))
    rw [worth_eq_rankWorth, worth_eq_rankWorth]
    exact ⟨by linarith, fun heq => by linarith⟩
  · have hother : rankWorth (m.rank + 1) ≤ rankWorth other.rank :=
      rankWorth_strictMono.monotone (worth_lt_iff.mp hlt)
    rw [worth_eq_rankWorth, worth_eq_rankWorth]
    exact ⟨by linarith, fun heq => by linarith⟩

theorem isNearest_infinity {q : ℚ} (h : 2 ^ 1024 - 2 ^ 970 ≤ q) : infinity.IsNearest q := by
  have hkind : infinity.isFinite = false := by decide
  refine ⟨?_, fun hfinite => ?_, fun hfinite => ?_⟩
  · exact iff_of_false (Bool.eq_false_iff.mp hkind) (not_lt.mpr h)
  · rw [hkind] at hfinite
    cases hfinite
  · rw [hkind] at hfinite
    cases hfinite

/-- Zero takes all up to half of the smallest magnitude. -/
theorem isNearest_zero {q : ℚ} (h : q ≤ 2 ^ (-1075 : Int)) : zero.IsNearest q := by
  have hunit : rankWorth 1 = 2 * 2 ^ (-1075 : Int) := by
    have hone : unitsAtRank 1 = 1 := by decide
    rw [rankWorth, hone, Nat.cast_one, cast_unitsPerOne, one_div, ← zpow_natCast, ← zpow_neg,
      ← zpow_one_add₀ two_ne_zero]
    norm_num
  have hfinite : zero.isFinite = true := by decide
  have hpos : (0 : ℚ) < 2 ^ (-1075 : Int) := zpow_pos two_pos _
  have hlimit := worth_lt_limit (m := ⟨1, by decide⟩) (by decide)
  rw [worth_eq_rankWorth, hunit] at hlimit
  refine (isNearest_iff_of_isFinite hfinite).mpr ⟨?_, fun other hlt => ?_, fun other _ hlt => ?_⟩
  · exact lt_of_le_of_lt (by linarith) hlimit
  · exact absurd (worth_lt_iff.mp hlt) (Nat.not_lt_zero _)
  · have hother : rankWorth 1 ≤ other.worth := by
      rw [worth_eq_rankWorth]
      exact rankWorth_strictMono.monotone (worth_lt_iff.mp hlt)
    rw [worth_zero, zero_add]
    exact ⟨by linarith, fun _ => (even_significand_iff zero).mpr rfl⟩

end Magnitude

/-! ### Reading decimals -/

namespace Decimal

theorem isNearest_toMagnitude (d : Decimal) : d.toMagnitude.IsNearest d.worth := by
  have hden : 0 < 10 ^ (-d.exponent).toNat := by positivity
  have hworth : d.worth = ((d.coefficient * 10 ^ d.exponent.toNat * unitsPerOne : Nat) : ℚ) /
      ((10 ^ (-d.exponent).toNat : Nat) : ℚ) / unitsPerOne := by
    rw [worth_eq_div, Nat.cast_mul _ unitsPerOne, div_div,
      mul_comm ((10 ^ (-d.exponent).toNat : Nat) : ℚ), ← div_div,
      mul_div_assoc _ (unitsPerOne : ℚ), div_self unitsPerOne_pos.ne', mul_one]
  rw [toMagnitude_eq_nearest, hworth]
  exact Magnitude.nearest_isNearest hden

/-- **A decimal is read as the magnitude that is nearest to its worth.** -/
theorem toMagnitude_eq_iff {d : Decimal} {m : Magnitude} :
    d.toMagnitude = m ↔ m.IsNearest d.worth := by
  constructor
  · rintro rfl
    exact d.isNearest_toMagnitude
  · exact d.isNearest_toMagnitude.unique

end Decimal

end DequeMachine

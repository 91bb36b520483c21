/-
  DequeMachine/Proofs/Number/Rank.lean
  ====================================
  **Ranks and units count the same row.**

  `unitsAtRank` says what a rank is worth, binade by binade, and `rankBelow` finds
  the last rank that is worth no more than so many units.  The first is strictly
  increasing, and the two are adjoint: a rank is worth at most so many units if
  and only if it is not past the rank found (`unitsAtRank_le_iff`).  Everything
  that is said about rounding rests on this alone; the binades do not show any
  more after this file.
-/
import DequeMachine.Number.Magnitude
import Mathlib.Order.Monotone.Basic
import Mathlib.Tactic.Ring

namespace DequeMachine

/-! ### Inside a binade -/

theorem binadeSize_eq : binadeSize = 2 ^ 52 := rfl

theorem unitsAtRank_eq (rank : Nat) :
    unitsAtRank rank =
      (rank - (rank / binadeSize - 1) * binadeSize) * 2 ^ (rank / binadeSize - 1) := rfl

/-- The formula for the units of a binade, which still holds at the first rank of
    the next binade. -/
theorem unitsAtRank_of_binade {rank step : Nat}
    (hlow : step = 0 ∨ (step + 1) * binadeSize ≤ rank)
    (hhigh : rank ≤ (step + 2) * binadeSize) :
    unitsAtRank rank = (rank - step * binadeSize) * 2 ^ step := by
  have hpos : 0 < binadeSize := by decide
  by_cases hlast : rank = (step + 2) * binadeSize
  · have hdiv : rank / binadeSize - 1 = step + 1 := by
      rw [hlast, Nat.mul_div_cancel _ hpos]
      omega
    have hnext : rank - (step + 1) * binadeSize = binadeSize := by
      rw [hlast, ← Nat.sub_mul]
      simp
    have hhere : rank - step * binadeSize = 2 * binadeSize := by
      rw [hlast, ← Nat.sub_mul]
      simp
    rw [unitsAtRank_eq, hdiv, hnext, hhere, Nat.pow_succ]
    ring
  · have hdiv : rank / binadeSize - 1 = step := by
      have hlt : rank / binadeSize < step + 2 :=
        Nat.div_lt_of_lt_mul (by rw [Nat.mul_comm]; omega)
      rcases hlow with hzero | hlow
      · omega
      · have hle : step + 1 ≤ rank / binadeSize := (Nat.le_div_iff_mul_le hpos).mpr hlow
        omega
    rw [unitsAtRank_eq, hdiv]

/-- The first rank of a binade. -/
theorem unitsAtRank_succ_mul_binadeSize (step : Nat) :
    unitsAtRank ((step + 1) * binadeSize) = 2 ^ (52 + step) := by
  have hle : (step + 1) * binadeSize ≤ (step + 2) * binadeSize := Nat.mul_le_mul_right _ (by omega)
  rw [unitsAtRank_of_binade (.inr (Nat.le_refl _)) hle, ← Nat.sub_mul, Nat.add_sub_cancel_left,
    Nat.one_mul, binadeSize_eq, ← Nat.pow_add]

theorem exists_binade (rank : Nat) :
    ∃ step, (step = 0 ∨ (step + 1) * binadeSize ≤ rank) ∧ rank < (step + 2) * binadeSize := by
  have hpos : 0 < binadeSize := by decide
  have hlt : rank < (rank / binadeSize + 1) * binadeSize := by
    rw [Nat.mul_comm]
    exact Nat.lt_mul_div_succ rank hpos
  refine ⟨rank / binadeSize - 1, ?_, ?_⟩
  · by_cases hfirst : rank / binadeSize ≤ 1
    · exact Or.inl (by omega)
    · refine Or.inr ?_
      rw [Nat.sub_add_cancel (by omega)]
      exact Nat.div_mul_le_self rank binadeSize
  · exact Nat.lt_of_lt_of_le hlt (Nat.mul_le_mul_right _ (by omega))

/-! ### The unit and the number one -/

theorem unitsPerOne_eq : unitsPerOne = 2 ^ 1074 := by decide +kernel

/-- The unit is so small a power of two that mostly no more is needed of it than that. -/
theorem exists_unitsPerOne_eq : ∃ n, unitsPerOne = 2 ^ n := ⟨_, unitsPerOne_eq⟩

theorem zero_lt_unitsPerOne : 0 < unitsPerOne := by
  obtain ⟨n, hn⟩ := exists_unitsPerOne_eq
  rw [hn]
  exact Nat.two_pow_pos n

theorem two_pow_mul_unitsPerOne (n : Nat) : 2 ^ n * unitsPerOne = 2 ^ (n + 1074) := by
  rw [unitsPerOne_eq, Nat.pow_add]

theorem unitsAtRank_topRank : unitsAtRank topRank = 2 ^ 1024 * unitsPerOne := by
  have htop : topRank = (2046 + 1) * binadeSize := rfl
  have hexponent : 52 + 2046 = 1024 + 1074 := rfl
  rw [two_pow_mul_unitsPerOne, htop, unitsAtRank_succ_mul_binadeSize, hexponent]

/-! ### The worth of ranks increases -/

theorem unitsAtRank_lt_succ (rank : Nat) : unitsAtRank rank < unitsAtRank (rank + 1) := by
  obtain ⟨step, hlow, hhigh⟩ := exists_binade rank
  have hstart : step * binadeSize ≤ rank := by
    rcases hlow with rfl | hlow
    · omega
    · exact Nat.le_trans (Nat.mul_le_mul_right _ (by omega)) hlow
  rw [unitsAtRank_of_binade hlow (Nat.le_of_lt hhigh),
    unitsAtRank_of_binade (hlow.imp_right Nat.le_succ_of_le) hhigh]
  exact Nat.mul_lt_mul_of_pos_right (by omega) (Nat.two_pow_pos step)

theorem unitsAtRank_strictMono : StrictMono unitsAtRank :=
  strictMono_nat_of_lt_succ unitsAtRank_lt_succ

@[simp] theorem unitsAtRank_zero : unitsAtRank 0 = 0 := rfl

/-- The two neighbours of a rank are far apart: a binade times their distance is no less
    than what the rank is worth. -/
theorem unitsAtRank_le_binadeSize_mul (rank : Nat) :
    unitsAtRank (rank + 1) + binadeSize * unitsAtRank rank ≤
      binadeSize * unitsAtRank (rank + 2) := by
  obtain ⟨step, hlow, hhigh⟩ := exists_binade rank
  obtain ⟨place, hplace⟩ : ∃ place, rank = step * binadeSize + place := by
    refine ⟨rank - step * binadeSize, (Nat.add_sub_cancel' ?_).symm⟩
    rcases hlow with rfl | hlow
    · omega
    · exact Nat.le_trans (Nat.mul_le_mul_right _ (by omega)) hlow
  have hunits : ∀ i, rank + i ≤ (step + 2) * binadeSize →
      unitsAtRank (rank + i) = (place + i) * 2 ^ step := by
    intro i hi
    rw [unitsAtRank_of_binade (hlow.imp_right fun h => by omega) hi]
    congr 1
    omega
  have hend : (step + 2) * binadeSize = step * binadeSize + 2 * binadeSize := Nat.add_mul ..
  have hlast : (place + 2) * 2 ^ step ≤ unitsAtRank (rank + 2) := by
    by_cases hinside : rank + 2 ≤ (step + 2) * binadeSize
    · exact (hunits 2 hinside).ge
    · -- the next binade begins in between, and its steps are larger
      have hstart : (step + 1) * binadeSize = step * binadeSize + binadeSize := Nat.succ_mul ..
      have hnext : rank + 2 ≤ (step + 1 + 2) * binadeSize := by
        have hpos : 0 < binadeSize := by decide
        rw [Nat.add_mul]
        omega
      have hreached : (step + 1 + 1) * binadeSize ≤ rank + 2 := Nat.le_of_lt (Nat.not_le.mp hinside)
      rw [unitsAtRank_of_binade (.inr hreached) hnext, Nat.pow_succ', ← Nat.mul_assoc]
      exact Nat.mul_le_mul_right _ (by omega)
  have hhere : unitsAtRank rank = place * 2 ^ step := hunits 0 (Nat.le_of_lt hhigh)
  calc unitsAtRank (rank + 1) + binadeSize * unitsAtRank rank
      = (place + 1) * 2 ^ step + binadeSize * (place * 2 ^ step) := by
        rw [hunits 1 hhigh, hhere]
    _ ≤ 2 * binadeSize * 2 ^ step + binadeSize * (place * 2 ^ step) :=
        Nat.add_le_add_right (Nat.mul_le_mul_right _ (by omega)) _
    _ = binadeSize * ((place + 2) * 2 ^ step) := by ring
    _ ≤ binadeSize * unitsAtRank (rank + 2) := Nat.mul_le_mul_left _ hlast

/-! ### The last rank below -/

theorem rankBelow_eq (units : Nat) :
    rankBelow units = (units.log2 - 52) * binadeSize + units / 2 ^ (units.log2 - 52) := rfl

/-- The rank found is worth all whole steps of its binade that fit in, and the one behind it
    is worth one step more. -/
theorem unitsAtRank_rankBelow (units : Nat) :
    unitsAtRank (rankBelow units) =
        units / 2 ^ (units.log2 - 52) * 2 ^ (units.log2 - 52) ∧
      unitsAtRank (rankBelow units + 1) =
        (units / 2 ^ (units.log2 - 52) + 1) * 2 ^ (units.log2 - 52) := by
  have hpos : 0 < 2 ^ (units.log2 - 52) := Nat.two_pow_pos _
  have hquot : units / 2 ^ (units.log2 - 52) < 2 * binadeSize := by
    have hlt : units < 2 ^ (units.log2 + 1) := Nat.lt_log2_self
    refine Nat.div_lt_of_lt_mul (Nat.lt_of_lt_of_le hlt ?_)
    rw [binadeSize_eq, ← Nat.pow_succ', ← Nat.pow_add]
    exact Nat.pow_le_pow_right (by decide) (by omega)
  have hlow : units.log2 - 52 = 0 ∨ binadeSize ≤ units / 2 ^ (units.log2 - 52) := by
    by_cases hsmall : units.log2 ≤ 52
    · exact Or.inl (by omega)
    · refine Or.inr ((Nat.le_div_iff_mul_le hpos).mpr ?_)
      have hne : units ≠ 0 := by
        rintro rfl
        exact hsmall (by decide)
      rw [binadeSize_eq, ← Nat.pow_add, Nat.add_sub_cancel' (by omega)]
      exact Nat.log2_self_le hne
  rw [rankBelow_eq]
  generalize units.log2 - 52 = step at *
  generalize units / 2 ^ step = q at *
  have hfirst : step = 0 ∨ (step + 1) * binadeSize ≤ step * binadeSize + q :=
    hlow.imp_right fun h => by rw [Nat.succ_mul]; omega
  have hend : step * binadeSize + q + 1 ≤ (step + 2) * binadeSize := by
    rw [Nat.add_mul]
    omega
  have hhere : step * binadeSize + q - step * binadeSize = q :=
    Nat.add_sub_cancel_left ..
  have hnext : step * binadeSize + q + 1 - step * binadeSize = q + 1 := by
    rw [Nat.add_assoc, Nat.add_sub_cancel_left]
  rw [unitsAtRank_of_binade hfirst (Nat.le_of_succ_le hend),
    unitsAtRank_of_binade (hfirst.imp_right Nat.le_succ_of_le) hend, hhere, hnext]
  exact ⟨rfl, rfl⟩

/-- The rank found is worth no more, and the one behind it is worth more. -/
theorem rankBelow_spec (units : Nat) :
    unitsAtRank (rankBelow units) ≤ units ∧ units < unitsAtRank (rankBelow units + 1) := by
  obtain ⟨hhere, hnext⟩ := unitsAtRank_rankBelow units
  rw [hhere, hnext]
  refine ⟨Nat.div_mul_le_self _ _, ?_⟩
  rw [Nat.mul_comm]
  exact Nat.lt_mul_div_succ units (Nat.two_pow_pos _)

/-- A rank is worth at most so many units exactly when it is not past the rank
    found for them. -/
theorem unitsAtRank_le_iff {rank units : Nat} :
    unitsAtRank rank ≤ units ↔ rank ≤ rankBelow units := by
  obtain ⟨hle, hlt⟩ := rankBelow_spec units
  constructor
  · intro h
    have : unitsAtRank rank < unitsAtRank (rankBelow units + 1) := Nat.lt_of_le_of_lt h hlt
    exact Nat.le_of_lt_succ (unitsAtRank_strictMono.lt_iff_lt.mp this)
  · intro h
    exact Nat.le_trans (unitsAtRank_strictMono.monotone h) hle

@[simp] theorem rankBelow_unitsAtRank (rank : Nat) : rankBelow (unitsAtRank rank) = rank := by
  apply Nat.le_antisymm
  · exact unitsAtRank_strictMono.le_iff_le.mp (rankBelow_spec (unitsAtRank rank)).1
  · exact unitsAtRank_le_iff.mp (Nat.le_refl _)

theorem rankBelow_eq_iff {rank units : Nat} :
    rankBelow units = rank ↔ unitsAtRank rank ≤ units ∧ units < unitsAtRank (rank + 1) := by
  rw [← Nat.not_le, unitsAtRank_le_iff, unitsAtRank_le_iff]
  omega

/-- From the second binade on, so many binades further up the worth has doubled as many
    times. -/
theorem unitsAtRank_add_binades {rank : Nat} (h : binadeSize ≤ rank) (k : Nat) :
    unitsAtRank (rank + k * binadeSize) = unitsAtRank rank * 2 ^ k := by
  have hpos : 0 < binadeSize := by decide
  have hone : 1 ≤ rank / binadeSize := (Nat.le_div_iff_mul_le hpos).mpr (by omega)
  have hstep : (rank + k * binadeSize) / binadeSize - 1 = rank / binadeSize - 1 + k := by
    rw [Nat.add_mul_div_right _ _ hpos]
    omega
  have hplace : rank + k * binadeSize - (rank / binadeSize - 1 + k) * binadeSize =
      rank - (rank / binadeSize - 1) * binadeSize := by
    rw [Nat.add_mul, Nat.add_sub_add_right]
  rw [unitsAtRank_eq, unitsAtRank_eq, hstep, hplace, Nat.pow_add, Nat.mul_assoc]

/-! ### Magnitudes -/

namespace Magnitude

@[ext] theorem ext {a b : Magnitude} (h : a.rank = b.rank) : a = b := by
  cases a
  cases b
  cases h
  rfl

theorem isZero_iff_eq_zero {m : Magnitude} : m.isZero = true ↔ m = .zero := by
  obtain ⟨rank, hle⟩ := m
  simp [isZero, zero]

theorem isFinite_eq_false_iff {m : Magnitude} : m.isFinite = false ↔ m = .infinity := by
  obtain ⟨rank, hle⟩ := m
  simp only [isFinite, infinity, decide_eq_false_iff_not, Nat.not_lt, Magnitude.mk.injEq]
  exact ⟨Nat.le_antisymm hle, fun h => h ▸ Nat.le_refl _⟩

end Magnitude

end DequeMachine

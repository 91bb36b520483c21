/-
  DequeMachine/Proofs/Number/Exact.lean
  =====================================
  **What comes out of rounding as it went in.**

  A number of units that has at most 53 binary digits before its zeros at the end is the
  worth of a rank (`exists_unitsAtRank_eq`), and nothing else is: from some size on the
  worth of a rank ends in so many zeros (`two_pow_dvd_unitsAtRank`), and from 2^53 on, which is
  where `wholeRank` stands, it is a whole number and an even one.  Rounding leaves such a
  number alone.  This makes exact all natural numbers up to 2^53 (`units_ofNat_of_le`) and the
  whole part of every magnitude, which is either small or the magnitude itself
  (`units_ofNat_floor`).
-/
import DequeMachine.Proofs.Number.Rounding
import Mathlib.Algebra.Order.Group.Nat

namespace DequeMachine

/-! ### The worth of ranks -/

theorem lt_unitsAtRank_topRank : 2 ^ 53 * unitsPerOne < unitsAtRank topRank := by
  have hpow : ∀ n, 53 < n → 2 ^ 53 < 2 ^ n := fun _ => Nat.pow_lt_pow_right Nat.one_lt_two
  rw [unitsAtRank_topRank]
  exact Nat.mul_lt_mul_of_pos_right (hpow 1024 (by decide)) zero_lt_unitsPerOne

theorem two_pow_dvd_unitsAtRank (rank : Nat) :
    2 ^ ((unitsAtRank rank).log2 - 52) ∣ unitsAtRank rank := by
  have hwhole := (unitsAtRank_rankBelow (unitsAtRank rank)).1
  rw [rankBelow_unitsAtRank] at hwhole
  exact Dvd.intro_left _ hwhole.symm

/-- From 2^53 on there are no fractions, and only even numbers. -/
theorem two_mul_unitsPerOne_dvd_unitsAtRank {rank : Nat}
    (h : 2 ^ 53 * unitsPerOne ≤ unitsAtRank rank) : 2 * unitsPerOne ∣ unitsAtRank rank := by
  obtain ⟨n, hn⟩ := exists_unitsPerOne_eq
  rw [hn] at h ⊢
  have hne : unitsAtRank rank ≠ 0 := by
    have hpos : 0 < 2 ^ 53 * 2 ^ n := Nat.mul_pos (Nat.two_pow_pos 53) (Nat.two_pow_pos n)
    omega
  have hlog : 53 + n ≤ (unitsAtRank rank).log2 := by rwa [Nat.le_log2 hne, Nat.pow_add]
  refine Nat.dvd_trans ?_ (two_pow_dvd_unitsAtRank rank)
  rw [← Nat.pow_succ']
  exact Nat.pow_dvd_pow 2 (by omega)

theorem exists_unitsAtRank_eq {k e : Nat} (hk : k < 2 ^ 53) :
    ∃ rank, unitsAtRank rank = k * 2 ^ e := by
  refine ⟨rankBelow (k * 2 ^ e), ?_⟩
  rw [(unitsAtRank_rankBelow _).1]
  refine Nat.div_mul_cancel ?_
  by_cases hzero : k * 2 ^ e = 0
  · rw [hzero]
    exact Nat.dvd_zero _
  · have hlog : (k * 2 ^ e).log2 < 53 + e := by
      rw [Nat.log2_lt hzero, Nat.pow_add]
      exact Nat.mul_lt_mul_of_pos_right hk (Nat.two_pow_pos e)
    exact Nat.dvd_mul_left_of_dvd (Nat.pow_dvd_pow 2 (by omega)) k

/-- The rank of 2^53, from which on there are no fractions any more. -/
abbrev wholeRank : Nat := 1076 * binadeSize

theorem unitsAtRank_wholeRank : unitsAtRank wholeRank = 2 ^ 53 * unitsPerOne := by
  have hrank : wholeRank = (1075 + 1) * binadeSize := rfl
  have hexponent : 52 + 1075 = 53 + 1074 := rfl
  rw [two_pow_mul_unitsPerOne, hrank, unitsAtRank_succ_mul_binadeSize, hexponent]

theorem wholeRank_le_iff {rank : Nat} :
    wholeRank ≤ rank ↔ 2 ^ 53 * unitsPerOne ≤ unitsAtRank rank := by
  rw [← unitsAtRank_wholeRank, unitsAtRank_strictMono.le_iff_le]

theorem unitsAtRank_add_le_succ {rank : Nat} (h : wholeRank ≤ rank) :
    unitsAtRank rank + 2 * unitsPerOne ≤ unitsAtRank (rank + 1) := by
  have hhere := two_mul_unitsPerOne_dvd_unitsAtRank (wholeRank_le_iff.mp h)
  have hnext := two_mul_unitsPerOne_dvd_unitsAtRank (wholeRank_le_iff.mp (Nat.le_succ_of_le h))
  have hlt := unitsAtRank_lt_succ rank
  have hgap := Nat.le_of_dvd (Nat.sub_pos_of_lt hlt) (Nat.dvd_sub hnext hhere)
  omega

theorem binadeSize_le_of_wholeRank_le {rank : Nat} (h : wholeRank ≤ rank) : binadeSize ≤ rank :=
  le_trans (by decide) h

/-! ### Magnitudes -/

namespace Magnitude

@[simp] theorem ofUnits_units (m : Magnitude) : ofUnits m.units = m := by
  have hself := m.nearest_units Nat.one_pos
  rwa [Nat.mul_one] at hself

theorem units_ofUnits {units : Nat} (hrank : ∃ rank, unitsAtRank rank = units)
    (hle : units ≤ unitsAtRank topRank) : (ofUnits units).units = units := by
  obtain ⟨rank, rfl⟩ := hrank
  exact congrArg Magnitude.units (ofUnits_units ⟨rank, unitsAtRank_strictMono.le_iff_le.mp hle⟩)

/-- **Natural numbers of at most 53 binary digits are carried without loss, and so is the
    first one that has more.** -/
theorem units_ofNat_of_le {n : Nat} (hn : n ≤ 2 ^ 53) : (ofNat n).units = n * unitsPerOne := by
  have hrank : ∃ rank, unitsAtRank rank = n * unitsPerOne := by
    obtain ⟨e, he⟩ := exists_unitsPerOne_eq
    rcases Nat.lt_or_eq_of_le hn with hlt | rfl
    · rw [he]
      exact exists_unitsAtRank_eq hlt
    · exact ⟨wholeRank, unitsAtRank_wholeRank⟩
  exact units_ofUnits hrank ((Nat.mul_le_mul_right _ hn).trans lt_unitsAtRank_topRank.le)

theorem units_ofNat {n : Nat} (hn : n < 2 ^ 53) : (ofNat n).units = n * unitsPerOne :=
  units_ofNat_of_le hn.le

theorem floor_ofNat {n : Nat} (hn : n < 2 ^ 53) : (ofNat n).floor = n := by
  rw [floor, units_ofNat hn]
  exact Nat.mul_div_cancel n zero_lt_unitsPerOne

/-- **The whole part of a magnitude is a magnitude.** -/
theorem units_ofNat_floor (m : Magnitude) : (ofNat m.floor).units = m.floor * unitsPerOne := by
  by_cases hsmall : m.floor < 2 ^ 53
  · exact units_ofNat hsmall
  · have hlarge : 2 ^ 53 * unitsPerOne ≤ m.units :=
      (Nat.le_div_iff_mul_le zero_lt_unitsPerOne).mp (Nat.not_lt.mp hsmall)
    have hdvd : unitsPerOne ∣ m.units :=
      Nat.dvd_trans (Nat.dvd_mul_left _ 2) (two_mul_unitsPerOne_dvd_unitsAtRank hlarge)
    have hwhole : m.floor * unitsPerOne = m.units := Nat.div_mul_cancel hdvd
    rw [ofNat, hwhole, ofUnits_units]

/-! ### Finite magnitudes -/

theorem isFinite_iff {m : Magnitude} : m.isFinite = true ↔ m.units < unitsAtRank topRank := by
  rw [isFinite, decide_eq_true_eq, units, unitsAtRank_strictMono.lt_iff_lt]

theorem isFinite_of_units_le {a b : Magnitude} (hb : b.isFinite = true) (h : a.units ≤ b.units) :
    a.isFinite = true :=
  isFinite_iff.mpr (h.trans_lt (isFinite_iff.mp hb))

theorem isFinite_ofNat_of_le {n : Nat} (hn : n ≤ 2 ^ 53) : (ofNat n).isFinite = true := by
  rw [isFinite_iff, units_ofNat_of_le hn]
  exact (Nat.mul_le_mul_right _ hn).trans_lt lt_unitsAtRank_topRank

theorem isFinite_ofNat {n : Nat} (hn : n < 2 ^ 53) : (ofNat n).isFinite = true :=
  isFinite_ofNat_of_le hn.le

theorem isFinite_ofNat_floor {m : Magnitude} (hm : m.isFinite = true) :
    (ofNat m.floor).isFinite = true := by
  refine isFinite_of_units_le hm ?_
  rw [units_ofNat_floor]
  exact Nat.div_mul_le_self _ _

end Magnitude

end DequeMachine

/-
  DequeMachine/Proofs/Number/Rounding.lean
  ========================================
  **Rounding a quotient to the nearest rank.**

  What `nearest` makes of a quotient depends on the quotient only, not on the
  numerator and denominator that it is given by (`nearest_congr`), and it leaves a
  quotient alone that is worth exactly a magnitude (`nearest_units`).  At the ends
  of the row it is enough to compare: what is worth a rank or more does not round
  below it, and what is worth less than half a unit rounds to zero.

  The rank that a quotient is rounded to is told from all others by the middles between
  them: the quotient is not below the middle to any earlier rank, not above the middle
  to any later one, and in such a middle only if the rank is even (`nearestRank_spec`).
-/
import DequeMachine.Proofs.Number.Rank

namespace DequeMachine

/-! ### Ranks -/

/-- A common factor of numerator and denominator makes no difference. -/
theorem nearestRank_mul_right (num den : Nat) {k : Nat} (hk : 0 < k) :
    nearestRank (num * k) (den * k) = nearestRank num den := by
  have hbelow : num * k / (den * k) = num / den := Nat.mul_div_mul_right _ _ hk
  have hlt : ∀ a b : Nat, a * k < b * k ↔ a < b := fun a b => Nat.mul_lt_mul_right hk
  simp only [nearestRank, hbelow, ← Nat.mul_assoc, hlt]

theorem nearestRank_unitsAtRank (rank : Nat) {den : Nat} (hden : 0 < den) :
    nearestRank (unitsAtRank rank * den) den = rank := by
  have hless : 2 * (unitsAtRank rank * den) <
      (unitsAtRank rank + unitsAtRank (rank + 1)) * den := by
    rw [← Nat.mul_assoc]
    refine Nat.mul_lt_mul_of_pos_right ?_ hden
    have := unitsAtRank_lt_succ rank
    omega
  simp only [nearestRank, Nat.mul_div_cancel _ hden, rankBelow_unitsAtRank]
  rw [if_pos hless]

theorem nearestRank_unitsAtRank_one (rank : Nat) : nearestRank (unitsAtRank rank) 1 = rank := by
  have hself := nearestRank_unitsAtRank rank Nat.one_pos
  rwa [Nat.mul_one] at hself

/-- Rounding takes the last rank below the quotient or the one behind it, by the middle between
    the two. -/
theorem nearestRank_cases (num den : Nat) :
    let below := rankBelow (num / den)
    let middle := (unitsAtRank below + unitsAtRank (below + 1)) * den
    nearestRank num den = below ∧ 2 * num ≤ middle ∧ (2 * num = middle → below % 2 = 0) ∨
      nearestRank num den = below + 1 ∧ middle ≤ 2 * num ∧
        (2 * num = middle → (below + 1) % 2 = 0) := by
  simp only [nearestRank]
  generalize rankBelow (num / den) = below
  generalize (unitsAtRank below + unitsAtRank (below + 1)) * den = middle
  split
  · exact .inl ⟨rfl, by omega, by omega⟩
  · split
    · exact .inr ⟨rfl, by omega, by omega⟩
    · split
      · exact .inl ⟨rfl, by omega, by omega⟩
      · exact .inr ⟨rfl, by omega, by omega⟩

theorem rankBelow_le_nearestRank (num den : Nat) :
    rankBelow (num / den) ≤ nearestRank num den := by
  rcases nearestRank_cases num den with ⟨hrank, _⟩ | ⟨hrank, _⟩
  · exact hrank.ge
  · rw [hrank]
    exact Nat.le_succ _

/-- What is worth a rank or more does not round below it. -/
theorem le_nearestRank {rank num den : Nat} (hden : 0 < den)
    (h : unitsAtRank rank * den ≤ num) : rank ≤ nearestRank num den := by
  have hunits : unitsAtRank rank ≤ num / den := (Nat.le_div_iff_mul_le hden).mpr h
  exact Nat.le_trans (unitsAtRank_le_iff.mp hunits) (rankBelow_le_nearestRank num den)

theorem nearestRank_eq_zero {num den : Nat} (h : 2 * num < den) : nearestRank num den = 0 := by
  have hquot : num / den = 0 := Nat.div_eq_of_lt (by omega)
  have hfirst : rankBelow 0 = 0 := by decide
  have hunit : unitsAtRank (0 + 1) = 1 := by decide
  simp only [nearestRank, hquot, hfirst, hunit, unitsAtRank_zero]
  rw [if_pos (by omega)]

/-- **Rounding goes by the middles between ranks.** -/
theorem nearestRank_spec (num : Nat) {den : Nat} (hden : 0 < den) :
    (∀ rank < nearestRank num den,
      (unitsAtRank rank + unitsAtRank (nearestRank num den)) * den ≤ 2 * num ∧
        (2 * num = (unitsAtRank rank + unitsAtRank (nearestRank num den)) * den →
          nearestRank num den % 2 = 0)) ∧
      (∀ rank, nearestRank num den < rank →
        2 * num ≤ (unitsAtRank (nearestRank num den) + unitsAtRank rank) * den ∧
          (2 * num = (unitsAtRank (nearestRank num den) + unitsAtRank rank) * den →
            nearestRank num den % 2 = 0)) := by
  obtain ⟨hle, hlt⟩ := rankBelow_spec (num / den)
  have hlow : unitsAtRank (rankBelow (num / den)) * den ≤ num :=
    (Nat.le_div_iff_mul_le hden).mp hle
  have hhigh : num < unitsAtRank (rankBelow (num / den) + 1) * den :=
    (Nat.div_lt_iff_lt_mul hden).mp hlt
  have hmono : ∀ {a b : Nat}, a ≤ b → unitsAtRank a * den ≤ unitsAtRank b * den := by
    intro a b hab
    exact Nat.mul_le_mul_right den (unitsAtRank_strictMono.monotone hab)
  have hstrict : ∀ {a b : Nat}, a < b → unitsAtRank a * den < unitsAtRank b * den := by
    intro a b hab
    exact Nat.mul_lt_mul_of_pos_right (unitsAtRank_strictMono hab) hden
  have hchoice := nearestRank_cases num den
  generalize nearestRank num den = nearest at hchoice ⊢
  generalize rankBelow (num / den) = below at *
  simp only [Nat.add_mul] at hchoice ⊢
  rcases hchoice with ⟨rfl, hmiddle, heven⟩ | ⟨rfl, hmiddle, heven⟩
  · refine ⟨fun rank hrank => ?_, fun rank hrank => ?_⟩
    · have := hstrict hrank
      exact ⟨by omega, by omega⟩
    · have := hmono (show nearest + 1 ≤ rank from hrank)
      exact ⟨by omega, fun heq => heven (by omega)⟩
  · refine ⟨fun rank hrank => ?_, fun rank hrank => ?_⟩
    · have := hmono (Nat.le_of_lt_succ hrank)
      exact ⟨by omega, fun heq => heven (by omega)⟩
    · have := hstrict hrank
      exact ⟨by omega, by omega⟩

/-- The rank of infinity is reached in the middle between it and the last rank before. -/
theorem nearestRank_lt_topRank_iff (num : Nat) {den : Nat} (hden : 0 < den) :
    nearestRank num den < topRank ↔
      2 * num < (unitsAtRank (topRank - 1) + unitsAtRank topRank) * den := by
  obtain ⟨last, htop, hodd⟩ : ∃ last, topRank = last + 1 ∧ last % 2 = 1 :=
    ⟨topRank - 1, by decide, by decide⟩
  obtain ⟨hbelow, habove⟩ := nearestRank_spec num hden
  rw [htop, Nat.add_sub_cancel]
  constructor
  · intro hlt
    obtain ⟨hle, heven⟩ := habove (last + 1) hlt
    have hlast : unitsAtRank (nearestRank num den) ≤ unitsAtRank last :=
      unitsAtRank_strictMono.monotone (Nat.le_of_lt_succ hlt)
    have hmiddle := Nat.mul_le_mul_right den (Nat.add_le_add_right hlast (unitsAtRank (last + 1)))
    refine Nat.lt_of_le_of_ne (hle.trans hmiddle) fun heq => ?_
    -- in the middle the even rank would have been taken, and the last finite one is odd
    have hsame : unitsAtRank (nearestRank num den) = unitsAtRank last := by
      have := Nat.eq_of_mul_eq_mul_right hden (Nat.le_antisymm hmiddle (heq ▸ hle))
      omega
    have hrank := unitsAtRank_strictMono.injective hsame
    rw [hrank] at heven
    exact absurd (heven heq) (by omega)
  · intro hlt
    by_contra hge
    have hpast : last + 1 ≤ nearestRank num den := Nat.le_of_not_lt hge
    have hunits : unitsAtRank (last + 1) ≤ unitsAtRank (nearestRank num den) :=
      unitsAtRank_strictMono.monotone hpast
    have hmiddle := Nat.mul_le_mul_right den (Nat.add_le_add_left hunits (unitsAtRank last))
    exact absurd (hmiddle.trans (hbelow last hpast).1) (Nat.not_le.mpr hlt)

theorem nearestRank_monotone {a b : Nat} (h : a ≤ b) : nearestRank a 1 ≤ nearestRank b 1 := by
  have hbelow : rankBelow (a / 1) ≤ rankBelow (b / 1) := by
    rw [Nat.div_one, Nat.div_one, ← unitsAtRank_le_iff]
    exact (rankBelow_spec a).1.trans h
  have ha := nearestRank_cases a 1
  have hb := nearestRank_cases b 1
  generalize nearestRank a 1 = x at *
  generalize nearestRank b 1 = y at *
  rcases Nat.lt_or_eq_of_le hbelow with hlt | heq
  · omega
  · rw [heq] at ha
    generalize rankBelow (b / 1) = below at *
    generalize (unitsAtRank below + unitsAtRank (below + 1)) * 1 = middle at *
    omega

/-- A rank takes all that is less than half of the way to the next one. -/
theorem nearestRank_add {rank extra : Nat}
    (h : unitsAtRank rank + 2 * extra < unitsAtRank (rank + 1)) :
    nearestRank (unitsAtRank rank + extra) 1 = rank := by
  have hbelow : rankBelow (unitsAtRank rank + extra) = rank :=
    rankBelow_eq_iff.mpr ⟨by omega, by omega⟩
  simp only [nearestRank, Nat.div_one, Nat.mul_one, hbelow]
  rw [if_pos (by omega)]

/-! ### Magnitudes -/

namespace Magnitude

/-- Rounding depends on the quotient alone. -/
theorem nearest_congr {num den num' den' : Nat} (hden : 0 < den) (hden' : 0 < den')
    (h : num * den' = num' * den) : nearest num den = nearest num' den' := by
  have hrank : nearestRank num den = nearestRank num' den' := by
    calc nearestRank num den
        = nearestRank (num * den') (den * den') := (nearestRank_mul_right num den hden').symm
      _ = nearestRank (num' * den) (den' * den) := by rw [h, Nat.mul_comm den]
      _ = nearestRank num' den' := nearestRank_mul_right num' den' hden
  simp only [nearest, hrank]

/-- A magnitude is nearest to its own worth. -/
theorem nearest_units (m : Magnitude) {den : Nat} (hden : 0 < den) :
    nearest (m.units * den) den = m := by
  apply Magnitude.ext
  calc (nearest (m.units * den) den).rank
      = min (nearestRank (m.units * den) den) topRank := rfl
    _ = min m.rank topRank := by rw [units, nearestRank_unitsAtRank m.rank hden]
    _ = m.rank := Nat.min_eq_left m.rank_le

theorem nearest_eq_infinity {num den : Nat} (hden : 0 < den)
    (h : 2 ^ 1024 * unitsPerOne * den ≤ num) : nearest num den = infinity := by
  have hle : topRank ≤ nearestRank num den :=
    le_nearestRank hden (by rwa [unitsAtRank_topRank])
  apply Magnitude.ext
  exact Nat.min_eq_right hle

theorem nearest_eq_zero {num den : Nat} (h : 2 * num < den) : nearest num den = zero := by
  apply Magnitude.ext
  calc (nearest num den).rank
      = min (nearestRank num den) topRank := rfl
    _ = min 0 topRank := by rw [nearestRank_eq_zero h]
    _ = 0 := Nat.zero_min _

end Magnitude

end DequeMachine

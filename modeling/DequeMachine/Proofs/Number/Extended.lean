/-
  DequeMachine/Proofs/Number/Extended.lean
  ========================================
  **Numbers on the extended real line.**

  A pattern of 64 bits denotes an extended real number, or none (`extendedOfBits?`).  What it
  denotes is said by its fields alone: a sign, eleven bits for the binade and the fraction.
  Both zeros denote zero, and the infinities are the ends of the line.

  A number of units has a place on the same line (`extendedOfUnits`), where the worth of the
  rank of infinity, and all past it, is infinity itself.  A number lies where its units do
  (`extended?_eq_map`), and within the row of all numbers these places increase strictly
  (`extendedOfUnits_strictMonoOn`).  Comparing units is therefore comparing extended real
  numbers, for all three comparisons alike (`less_iff`, `atMost_iff`, `equals_iff`).
-/
import DequeMachine.Number.Basic
import DequeMachine.Proofs.Number.Exact
import DequeMachine.Proofs.Number.Nearest
import Mathlib.Data.EReal.Operations
import Mathlib.Data.Int.ConditionallyCompleteOrder

namespace DequeMachine

/-! ### What bit patterns denote -/

/-- An extended real number under a sign that is given apart. -/
noncomputable def underSign (negative : Bool) (r : EReal) : EReal := if negative then -r else r

@[simp] theorem underSign_false (r : EReal) : underSign false r = r := rfl

@[simp] theorem underSign_true (r : EReal) : underSign true r = -r := rfl

/-- What a pattern without its sign denotes.  The first binade is the one without a leading
    bit that is not stored; the last one holds infinity and all that is not a number. -/
noncomputable def extendedOfFields? (binade fraction : Nat) : Option EReal :=
  if binade = 2047 then if fraction = 0 then some ⊤ else none
  else if binade = 0 then some (fraction * 2 ^ (-1074 : ℤ) : ℝ)
  else some ((2 ^ 52 + fraction) * 2 ^ ((binade : ℤ) - 1075) : ℝ)

/-- The extended real number that a pattern of 64 bits denotes: one bit for the sign, eleven
    for the binade and 52 for the fraction. -/
noncomputable def extendedOfBits? (bits : Nat) : Option EReal :=
  (extendedOfFields? (bits / 2 ^ 52 % 2 ^ 11) (bits % 2 ^ 52)).map
    (underSign (bits / 2 ^ 63 % 2 == 1))

/-! ### Magnitudes -/

namespace Magnitude

noncomputable def extended (m : Magnitude) : EReal :=
  if m.isFinite then ((m.worth : ℝ) : EReal) else ⊤

theorem extended_of_isFinite {m : Magnitude} (h : m.isFinite = true) :
    m.extended = ((m.worth : ℝ) : EReal) := if_pos h

theorem extended_of_not_isFinite {m : Magnitude} (h : ¬m.isFinite = true) : m.extended = ⊤ :=
  if_neg h

theorem extendedOfFields?_rank (m : Magnitude) :
    extendedOfFields? (m.rank / 2 ^ 52) (m.rank % 2 ^ 52) = some m.extended := by
  have hle : m.rank ≤ 2047 * 2 ^ 52 := m.rank_le
  by_cases htop : m.rank = 2047 * 2 ^ 52
  · have hinfinite : ¬m.isFinite = true := fun h => htop.not_lt (of_decide_eq_true h)
    have hbinade : m.rank / 2 ^ 52 = 2047 := by omega
    have hfraction : m.rank % 2 ^ 52 = 0 := by omega
    rw [extendedOfFields?, if_pos hbinade, if_pos hfraction, extended_of_not_isFinite hinfinite]
  · have hfinite : m.isFinite = true := decide_eq_true (Nat.lt_of_le_of_ne hle htop)
    have hbinade : m.rank / 2 ^ 52 ≠ 2047 := by omega
    have hsignificand : m.significand =
        if m.rank / 2 ^ 52 = 0 then m.rank % 2 ^ 52 else 2 ^ 52 + m.rank % 2 ^ 52 := rfl
    have hexponent : m.exponent = (max (m.rank / 2 ^ 52) 1 : Nat) - 1075 := rfl
    rw [extendedOfFields?, if_neg hbinade, extended_of_isFinite hfinite, worth, hsignificand,
      hexponent]
    generalize m.rank / 2 ^ 52 = binade
    generalize m.rank % 2 ^ 52 = fraction
    split
    case isTrue hzero =>
      rw [hzero]
      norm_num
    case isFalse hzero =>
      rw [Nat.max_eq_left (Nat.one_le_iff_ne_zero.mpr hzero)]
      norm_num

end Magnitude

theorem extendedOfFields?_of_lt {rank : Nat} (hlow : topRank < rank) (hhigh : rank < 2 ^ 63) :
    extendedOfFields? (rank / 2 ^ 52) (rank % 2 ^ 52) = none := by
  have htop : topRank = 2047 * 2 ^ 52 := rfl
  have hbinade : rank / 2 ^ 52 = 2047 := by omega
  have hfraction : rank % 2 ^ 52 ≠ 0 := by omega
  rw [extendedOfFields?, if_pos hbinade, if_neg hfraction]

/-! ### Numbers and their patterns -/

namespace Number

noncomputable def extended? : Number → Option EReal
  | .nan => none
  | .signed negative m => some (underSign negative m.extended)

theorem extended?_eq_none_iff {x : Number} : x.extended? = none ↔ x = .nan := by
  cases x with
  | nan => exact iff_of_true rfl rfl
  | signed negative m => simp [extended?]

theorem extended?_ofNat {n : Nat} (hn : n < 2 ^ 53) :
    (ofNat n).extended? = some ((n : ℝ) : EReal) := by
  have hworth : (Magnitude.ofNat n).worth = n :=
    Magnitude.worth_eq_iff.mpr (Magnitude.units_ofNat hn)
  rw [ofNat, extended?, underSign_false,
    Magnitude.extended_of_isFinite (Magnitude.isFinite_ofNat hn), hworth, Rat.cast_natCast]

theorem extended?_zero : zero.extended? = some 0 := by
  have hfinite : Magnitude.zero.isFinite = true := by decide
  rw [zero, extended?, underSign_false, Magnitude.extended_of_isFinite hfinite,
    Magnitude.worth_zero, Rat.cast_zero, EReal.coe_zero]

theorem extended?_ofBits (bits : Nat) : (ofBits bits).extended? = extendedOfBits? bits := by
  have hsign : signBit = 2 ^ 63 := rfl
  have hbinade : bits / 2 ^ 52 % 2 ^ 11 = bits % 2 ^ 63 / 2 ^ 52 := by omega
  have hfraction : bits % 2 ^ 52 = bits % 2 ^ 63 % 2 ^ 52 := by omega
  have hlt : bits % 2 ^ 63 < 2 ^ 63 := Nat.mod_lt _ (by decide)
  rw [extendedOfBits?, hbinade, hfraction, ofBits, hsign]
  by_cases hrank : bits % 2 ^ 63 ≤ topRank
  · rw [dif_pos hrank, extended?, Magnitude.extendedOfFields?_rank ⟨_, hrank⟩, Option.map_some]
  · rw [dif_neg hrank, extended?, extendedOfFields?_of_lt (Nat.not_le.mp hrank) hlt,
      Option.map_none]

theorem ofBits_toBits (x : Number) : ofBits x.toBits = x := by
  have hsign : signBit = 2 ^ 63 := rfl
  cases x with
  | nan => decide
  | signed negative m =>
    have hle : m.rank ≤ 2047 * 2 ^ 52 := m.rank_le
    have hrank : (toBits (.signed negative m)) % 2 ^ 63 = m.rank := by
      rw [toBits, hsign]
      split <;> omega
    have hnegative : (toBits (.signed negative m) / 2 ^ 63 % 2 == 1) = negative := by
      rw [toBits, hsign]
      cases negative <;> simp <;> omega
    rw [ofBits, hsign, hnegative]
    simp only [hrank]
    exact dif_pos m.rank_le

@[simp] theorem extendedOfBits?_toBits (x : Number) : extendedOfBits? x.toBits = x.extended? := by
  rw [← extended?_ofBits, ofBits_toBits]

end Number

/-! ### Units on the line -/

/-- What the rank of infinity is worth. -/
def topUnits : ℤ := unitsAtRank topRank

theorem zero_lt_topUnits : 0 < topUnits :=
  Int.natCast_pos.mpr (Nat.zero_lt_of_lt lt_unitsAtRank_topRank)

/-- The place of a number of units on the line.  What is worth as much as infinity lies at the
    end of it. -/
noncomputable def extendedOfUnits (units : ℤ) : EReal :=
  if topUnits ≤ units then ⊤
  else if units ≤ -topUnits then ⊥
  else ((units / unitsPerOne : ℝ) : EReal)

theorem extendedOfUnits_strictMonoOn :
    StrictMonoOn extendedOfUnits (Set.Icc (-topUnits) topUnits) := by
  rintro a ⟨hlow, _⟩ b ⟨_, hhigh⟩ hlt
  have ha : ¬topUnits ≤ a := by omega
  rw [extendedOfUnits, extendedOfUnits, if_neg ha]
  by_cases htop : topUnits ≤ b
  · rw [if_pos htop]
    split
    · exact bot_lt_top
    · exact EReal.coe_lt_top _
  · have hb : ¬b ≤ -topUnits := by omega
    rw [if_neg htop, if_neg hb]
    split
    · exact EReal.bot_lt_coe _
    · have hpos : (0 : ℝ) < unitsPerOne := Nat.cast_pos.mpr zero_lt_unitsPerOne
      exact EReal.coe_lt_coe (div_lt_div_of_pos_right (Int.cast_lt.mpr hlt) hpos)

theorem extendedOfUnits_neg (units : ℤ) : extendedOfUnits (-units) = -extendedOfUnits units := by
  have hpos := zero_lt_topUnits
  have hhigh : topUnits ≤ -units ↔ units ≤ -topUnits := by omega
  have hlow : -units ≤ -topUnits ↔ topUnits ≤ units := by omega
  simp only [extendedOfUnits, hhigh, hlow]
  by_cases htop : topUnits ≤ units
  · have hbottom : ¬units ≤ -topUnits := by omega
    rw [if_neg hbottom, if_pos htop, if_pos htop, EReal.neg_top]
  · rw [if_neg htop, if_neg htop]
    split
    · exact EReal.neg_bot.symm
    · rw [Int.cast_neg, neg_div, EReal.coe_neg]

theorem extendedOfUnits_units (m : Magnitude) : extendedOfUnits m.units = m.extended := by
  have hpos := zero_lt_topUnits
  have hlow : ¬(m.units : ℤ) ≤ -topUnits := by omega
  have htop : topUnits ≤ m.units ↔ ¬m.isFinite = true := by
    rw [Magnitude.isFinite_iff, Nat.not_lt]
    exact Int.ofNat_le
  rw [extendedOfUnits, if_neg hlow]
  by_cases hfinite : m.isFinite = true
  · have hworth : (m.worth : ℝ) = m.units / unitsPerOne := by
      rw [m.worth_eq_units_div, Rat.cast_div, Rat.cast_natCast, Rat.cast_natCast]
    rw [if_neg fun h => htop.mp h hfinite, Magnitude.extended_of_isFinite hfinite, hworth,
      Int.cast_natCast]
  · rw [if_pos (htop.mpr hfinite), Magnitude.extended_of_not_isFinite hfinite]

namespace Number

theorem extendedOfUnits_signedUnits (negative : Bool) (m : Magnitude) :
    extendedOfUnits (signedUnits negative m) = underSign negative m.extended := by
  cases negative with
  | false =>
    rw [signedUnits, if_neg Bool.false_ne_true, extendedOfUnits_units, underSign_false]
  | true =>
    rw [signedUnits, if_pos rfl, extendedOfUnits_neg, extendedOfUnits_units, underSign_true]

/-- A number lies where its units do. -/
theorem extended?_eq_map (x : Number) : x.extended? = x.units?.map extendedOfUnits := by
  cases x with
  | nan => rfl
  | signed negative m => exact congrArg some (extendedOfUnits_signedUnits negative m).symm

theorem units_mem_Icc {x : Number} {units : ℤ} (h : x.units? = some units) :
    units ∈ Set.Icc (-topUnits) topUnits := by
  cases x with
  | nan => cases h
  | signed negative m =>
    have hle : (m.units : ℤ) ≤ topUnits :=
      Int.ofNat_le.mpr (unitsAtRank_strictMono.monotone m.rank_le)
    obtain rfl := Option.some.inj h
    rw [Set.mem_Icc, signedUnits]
    split <;> omega

theorem exists_units?_eq {x : Number} {p : EReal} (h : x.extended? = some p) :
    ∃ units ∈ Set.Icc (-topUnits) topUnits, x.units? = some units ∧ extendedOfUnits units = p := by
  rw [extended?_eq_map] at h
  obtain ⟨units, hunits, hp⟩ := Option.map_eq_some_iff.mp h
  exact ⟨units, units_mem_Icc hunits, hunits, hp⟩

/-! ### Comparisons -/

section Compare

variable {x y : Number} {p q : EReal} (hx : x.extended? = some p) (hy : y.extended? = some q)
include hx hy

theorem less_iff : x.less y = true ↔ p < q := by
  obtain ⟨a, harow, ha, rfl⟩ := exists_units?_eq hx
  obtain ⟨b, hbrow, hb, rfl⟩ := exists_units?_eq hy
  rw [less, ha, hb, extendedOfUnits_strictMonoOn.lt_iff_lt harow hbrow]
  exact decide_eq_true_iff

theorem atMost_iff : x.atMost y = true ↔ p ≤ q := by
  obtain ⟨a, harow, ha, rfl⟩ := exists_units?_eq hx
  obtain ⟨b, hbrow, hb, rfl⟩ := exists_units?_eq hy
  rw [atMost, ha, hb, extendedOfUnits_strictMonoOn.le_iff_le harow hbrow]
  exact decide_eq_true_iff

theorem equals_iff : x.equals y = true ↔ p = q := by
  obtain ⟨a, harow, ha, rfl⟩ := exists_units?_eq hx
  obtain ⟨b, hbrow, hb, rfl⟩ := exists_units?_eq hy
  have hinj := extendedOfUnits_strictMonoOn.injOn.eq_iff harow hbrow
  rw [equals, ha, hb, hinj]
  exact beq_iff_eq

end Compare

end Number

end DequeMachine

/-
  DequeMachine/Proofs/Word.lean
  =============================
  **Every value is a word of 32 bits, without loss.**

  The word of a value is found by computing with numbers: the whole part is taken, reduced
  by 2^32 as often as that fits in, raised by 2^32 if it is below zero then, and cut off to a
  natural number.  Each of the steps could round and none does.  The whole part of a number
  is a number (`Magnitude.units_ofNat_floor`), and from there on the magnitudes are natural
  numbers below 2^32 + 1, which are carried exactly (`remainder_whole`, `exists_modulo_whole`).

  What is computed is therefore the whole part of the exact value (`Number.worth?`,
  `wholePart`), reduced modulo 2^32 (`modulo_whole_exact`).  Read with its sign, the word is
  the one integer of that class between -2^31 and 2^31 (`eq_toInt_ofInt_iff`).
-/
import DequeMachine.Value
import DequeMachine.Proofs.Number.Exact
import DequeMachine.Proofs.Number.Nearest
import Mathlib.Data.Int.ModEq
import Mathlib.Data.Rat.Floor

namespace DequeMachine

/-! ### Exact values and their whole parts -/

/-- The exact value of a number, if it has one. -/
def Number.worth? : Number → Option ℚ
  | .nan => none
  | .signed negative m =>
    if m.isFinite then some (if negative then -m.worth else m.worth) else none

/-- The integer next to a rational on the side of zero. -/
def wholePart (q : ℚ) : ℤ := if 0 ≤ q then ⌊q⌋ else ⌈q⌉

theorem wholePart_of_nonneg {q : ℚ} (h : 0 ≤ q) : wholePart q = ⌊q⌋ := if_pos h

@[simp] theorem wholePart_intCast (n : ℤ) : wholePart n = n := by
  rw [wholePart, Int.floor_intCast, Int.ceil_intCast, ite_self]

theorem wholePart_neg (q : ℚ) : wholePart (-q) = -wholePart q := by
  rcases lt_trichotomy q 0 with hneg | rfl | hpos
  · rw [wholePart, wholePart, if_pos (by linarith), if_neg hneg.not_ge, Int.floor_neg]
  · rw [neg_zero, ← Int.cast_zero, wholePart_intCast, neg_zero]
  · rw [wholePart, wholePart, if_neg (by linarith), if_pos hpos.le, Int.ceil_neg]

namespace Magnitude

theorem worth_nonneg (m : Magnitude) : 0 ≤ m.worth := by
  rw [worth_eq_units_div]
  exact div_nonneg (Nat.cast_nonneg _) unitsPerOne_pos.le

theorem floor_worth (m : Magnitude) : ⌊m.worth⌋ = (m.floor : ℤ) := by
  rw [worth_eq_units_div, Rat.floor_natCast_div_natCast, floor, Int.natCast_div]

@[simp] theorem isZero_iff {m : Magnitude} : m.isZero = true ↔ m.units = 0 := by
  have hzero : m.units = 0 ↔ m.rank = 0 :=
    unitsAtRank_strictMono.injective.eq_iff' unitsAtRank_zero
  rw [isZero, beq_iff_eq, hzero]

end Magnitude

/-- An integer under a sign that is given apart. -/
def withSign (negative : Bool) (n : Nat) : ℤ := if negative then -n else n

namespace Number

theorem isFinite_iff_worth? {x : Number} : x.isFinite = true ↔ x.worth? ≠ none := by
  cases x with
  | nan => simp [isFinite, worth?]
  | signed negative m => simp [isFinite, worth?]

theorem worth?_signed_ofNat (negative : Bool) {n : Nat}
    (hfinite : (Magnitude.ofNat n).isFinite = true)
    (hunits : (Magnitude.ofNat n).units = n * unitsPerOne) :
    (signed negative (.ofNat n)).worth? = some (withSign negative n : ℚ) := by
  rw [worth?, if_pos hfinite, Magnitude.worth_eq_iff.mpr hunits]
  cases negative with
  | false => rfl
  | true => simp [withSign]

theorem worth?_signed_ofNat_of_lt (negative : Bool) {n : Nat} (hn : n < 2 ^ 53) :
    (signed negative (.ofNat n)).worth? = some (withSign negative n : ℚ) :=
  worth?_signed_ofNat negative (Magnitude.isFinite_ofNat hn) (Magnitude.units_ofNat hn)

theorem wholePart_of_worth? {negative : Bool} {m : Magnitude} {q : ℚ}
    (h : (signed negative m).worth? = some q) :
    m.isFinite = true ∧ wholePart q = withSign negative m.floor := by
  rw [worth?] at h
  split at h
  case isFalse => cases h
  case isTrue hfinite =>
    refine ⟨hfinite, ?_⟩
    obtain rfl := Option.some.inj h
    have hwhole : wholePart m.worth = m.floor := by
      rw [wholePart_of_nonneg m.worth_nonneg, m.floor_worth]
    cases negative with
    | false => simpa [withSign] using hwhole
    | true => simpa [withSign, wholePart_neg] using hwhole

/-! ### Reducing a whole part -/

theorem whole_signed {negative : Bool} {m : Magnitude} (hm : m.isFinite = true) :
    (signed negative m).whole = .signed negative (.ofNat m.floor) := by
  rw [whole, if_pos hm]

/-- The remainder of natural numbers is taken without loss. -/
theorem remainder_ofNat (negative : Bool) {n k : Nat} (hk : 0 < k) (hlt : k < 2 ^ 53)
    (hfinite : (Magnitude.ofNat n).isFinite = true)
    (hunits : (Magnitude.ofNat n).units = n * unitsPerOne) :
    (signed negative (.ofNat n)).remainder (.ofNat k) =
      .signed negative (.ofNat (n % k)) := by
  have hzero : (Magnitude.ofNat k).isZero = false := by
    rw [Bool.eq_false_iff, ne_eq, Magnitude.isZero_iff, Magnitude.units_ofNat hlt]
    exact (Nat.mul_pos hk zero_lt_unitsPerOne).ne'
  rw [ofNat, remainder, hfinite, hzero, Magnitude.isFinite_ofNat hlt, hunits,
    Magnitude.units_ofNat hlt, Nat.mul_mod_mul_right]
  rfl

theorem less_zero_iff {negative : Bool} {m : Magnitude} :
    (signed negative m).less .zero = true ↔ negative = true ∧ 0 < m.units := by
  cases negative <;> simp [less, zero, units?, signedUnits, Magnitude.zero, Magnitude.units]

theorem ofUnits_natCast (negativeZero : Bool) {units : Nat} (h : 0 < units) :
    ofUnits negativeZero units = .signed false (.ofUnits units) := by
  rw [ofUnits, if_neg (by omega), decide_eq_false (by omega), Int.natAbs_natCast]

/-- A natural number under a minus sign, raised by a larger one, is the difference of the two. -/
theorem neg_add_ofNat {n k : Nat} (hn : n < k) (hk : k < 2 ^ 53) :
    signed true (.ofNat n) + ofNat k = ofNat (k - n) := by
  have hpos : 0 < unitsPerOne := zero_lt_unitsPerOne
  have hsum : signedUnits true (.ofNat n) + signedUnits false (.ofNat k) =
      ((k - n) * unitsPerOne : Nat) := by
    rw [signedUnits, signedUnits, if_pos rfl, if_neg Bool.false_ne_true,
      Magnitude.units_ofNat (hn.trans hk), Magnitude.units_ofNat hk, Nat.sub_mul, Nat.cast_sub]
    · omega
    · exact Nat.mul_le_mul_right _ hn.le
  have hdiff : 0 < (k - n) * unitsPerOne := Nat.mul_pos (Nat.sub_pos_of_lt hn) hpos
  calc signed true (.ofNat n) + ofNat k
      = ofUnits (true && false)
          (signedUnits true (.ofNat n) + signedUnits false (.ofNat k)) := by
        show add _ _ = _
        rw [ofNat, add, Magnitude.isFinite_ofNat (hn.trans hk), Magnitude.isFinite_ofNat hk]
        rfl
    _ = ofNat (k - n) := by rw [hsum, ofUnits_natCast _ hdiff, ofNat, Magnitude.ofNat]

theorem clamp_ofNat {n last : Nat} (hn : n < 2 ^ 53) (hlast : n ≤ last) :
    (ofNat n).clamp last = n := by
  rw [ofNat, clamp, if_neg Bool.false_ne_true, Magnitude.floor_ofNat hn, Nat.min_eq_left hlast]

section Modulo

variable (negative : Bool) {m : Magnitude} (hm : m.isFinite = true)
  {k : Nat} (hk : 0 < k) (hlt : k < 2 ^ 53)
include hm hk hlt

theorem remainder_whole : (signed negative m).whole.remainder (.ofNat k) =
    .signed negative (.ofNat (m.floor % k)) := by
  rw [whole_signed hm]
  exact remainder_ofNat negative hk hlt (Magnitude.isFinite_ofNat_floor hm) m.units_ofNat_floor

/-- **The modulo of a whole part is the one of integers.**  It comes out as a natural number,
    except that a negative multiple of the modulus leaves a negative zero. -/
theorem exists_modulo_whole : ∃ (sign : Bool) (n : Nat),
    (signed negative m).whole.modulo (.ofNat k) = .signed sign (.ofNat n) ∧
      (n : ℤ) = withSign negative m.floor % k ∧ (sign = true → n = 0) := by
  have hmod : m.floor % k < k := Nat.mod_lt _ hk
  have hsmall : m.floor % k < 2 ^ 53 := hmod.trans hlt
  have hunits : 0 < (Magnitude.ofNat (m.floor % k)).units ↔ m.floor % k ≠ 0 := by
    rw [Magnitude.units_ofNat hsmall, Nat.mul_pos_iff_of_pos_right zero_lt_unitsPerOne,
      Nat.pos_iff_ne_zero]
  rw [modulo, remainder_whole negative hm hk hlt]
  by_cases hraise : negative = true ∧ m.floor % k ≠ 0
  · obtain ⟨rfl, hne⟩ := hraise
    refine ⟨false, k - m.floor % k, ?_, ?_, fun h => absurd h Bool.false_ne_true⟩
    · rw [if_pos (less_zero_iff.mpr ⟨rfl, hunits.mpr hne⟩)]
      exact neg_add_ofNat hmod hlt
    · rw [withSign, if_pos rfl, Int.neg_emod, if_neg, Int.natAbs_natCast, Nat.cast_sub hmod.le,
        Int.natCast_mod]
      rwa [Int.natCast_dvd_natCast, Nat.dvd_iff_mod_eq_zero]
  · refine ⟨negative, m.floor % k, ?_, ?_, fun h => by_contra fun hne => hraise ⟨h, hne⟩⟩
    · refine if_neg fun hless => hraise ?_
      obtain ⟨hnegative, hpos⟩ := less_zero_iff.mp hless
      exact ⟨hnegative, hunits.mp hpos⟩
    · cases negative with
      | false => exact Int.natCast_mod _ _
      | true =>
        have hzero : m.floor % k = 0 := by_contra fun hne => hraise ⟨rfl, hne⟩
        have hdvd : (k : ℤ) ∣ m.floor :=
          Int.natCast_dvd_natCast.mpr (Nat.dvd_of_mod_eq_zero hzero)
        rw [hzero, withSign, if_pos rfl, Int.emod_eq_zero_of_dvd (Int.dvd_neg.mpr hdvd)]
        rfl

end Modulo

section Exactness

variable {x : Number} {q : ℚ} (h : x.worth? = some q)
include h

/-- The whole part of a number is exact. -/
theorem worth?_whole : x.whole.worth? = some (wholePart q : ℚ) := by
  cases x with
  | nan => cases h
  | signed negative m =>
    obtain ⟨hm, hwhole⟩ := wholePart_of_worth? h
    rw [whole_signed hm, hwhole]
    exact worth?_signed_ofNat negative (Magnitude.isFinite_ofNat_floor hm) m.units_ofNat_floor

variable {k : Nat} (hk : 0 < k) (hlt : k < 2 ^ 53)
include hk hlt

/-- So is what remains of it, which has the sign of the whole part. -/
theorem worth?_remainder_whole :
    (x.whole.remainder (.ofNat k)).worth? = some ((wholePart q).tmod k : ℚ) := by
  cases x with
  | nan => cases h
  | signed negative m =>
    obtain ⟨hm, hwhole⟩ := wholePart_of_worth? h
    have hsign : (withSign negative m.floor).tmod k = withSign negative (m.floor % k) := by
      have hnat : (m.floor : ℤ).tmod k = (m.floor % k : Nat) := (Int.ofNat_tmod _ _).symm
      cases negative with
      | false => exact hnat
      | true => rw [withSign, withSign, if_pos rfl, if_pos rfl, Int.neg_tmod, hnat]
    rw [remainder_whole negative hm hk hlt, hwhole, hsign]
    exact worth?_signed_ofNat_of_lt negative ((Nat.mod_lt _ hk).trans hlt)

/-- And so are the modulo, which has no sign, and the natural number that it is. -/
theorem modulo_whole_exact :
    (x.whole.modulo (.ofNat k)).worth? = some (wholePart q % k : ℤ) ∧
      ((x.whole.modulo (.ofNat k)).clamp (k - 1) : ℤ) = wholePart q % k := by
  cases x with
  | nan => cases h
  | signed negative m =>
    obtain ⟨hm, hwhole⟩ := wholePart_of_worth? h
    obtain ⟨sign, n, hmodulo, hn, hzero⟩ := exists_modulo_whole negative hm hk hlt
    have hnk : n < k := by
      have := Int.emod_lt_of_pos (withSign negative m.floor) (Int.natCast_pos.mpr hk)
      omega
    rw [hmodulo, hwhole, ← hn]
    constructor
    · rw [worth?_signed_ofNat_of_lt sign (hnk.trans hlt)]
      cases sign with
      | false => rfl
      | true => rw [hzero rfl]; rfl
    · cases sign with
      | false => exact congrArg _ (clamp_ofNat (hnk.trans hlt) (Nat.le_sub_one_of_lt hnk))
      | true => rw [hzero rfl]; rfl

end Exactness

end Number

/-! ### Words -/

namespace Value

theorem cast_wordCount : (wordCount : ℤ) = 2 ^ 32 := by norm_num [wordCount]

theorem word_eq_ofInt {v : Value} {q : ℚ} (h : v.toNumber.worth? = some q) :
    v.word = BitVec.ofInt 32 (wholePart q) := by
  have hfinite : v.toNumber.isFinite = true := Number.isFinite_iff_worth?.mpr (by simp [h])
  obtain ⟨_, hclamp⟩ := Number.modulo_whole_exact h (k := wordCount) (by decide) (by decide)
  have hword : v.word = .ofNat 32
      ((v.toNumber.whole.modulo (.ofNat wordCount)).clamp (wordCount - 1)) := by
    rw [word]
    exact if_pos hfinite
  rw [hword, ← BitVec.ofInt_natCast, hclamp]
  apply BitVec.eq_of_toInt_eq
  rw [BitVec.toInt_ofInt, BitVec.toInt_ofInt]
  exact Int.emod_bmod _ _

theorem word_eq_zero {v : Value} (h : v.toNumber.worth? = none) : v.word = 0 := by
  have hfinite : ¬v.toNumber.isFinite = true := fun hf => Number.isFinite_iff_worth?.mp hf h
  rw [word]
  exact if_neg hfinite

theorem shift_eq (v : Value) : v.shift = v.word.toNat % 32 := by
  rw [shift, BitVec.toNat_and]
  exact Nat.and_two_pow_sub_one_eq_mod _ 5

/-- Wrapping around does not touch the low five bits. -/
theorem bmod_emod (n : ℤ) : n.bmod (2 ^ 32) % 32 = n % 32 := by
  have hdvd : (32 : ℤ) ∣ (2 ^ 32 : Nat) := by decide
  rw [← Int.emod_emod_of_dvd _ hdvd, Int.bmod_emod, Int.emod_emod_of_dvd _ hdvd]

theorem cast_shift (v : Value) : (v.shift : ℤ) = v.word.toInt % 32 := by
  rw [shift_eq, BitVec.toInt_eq_toNat_bmod, bmod_emod, Int.natCast_mod]
  rfl

theorem eq_toInt_ofInt_iff {n i : ℤ} :
    n = (BitVec.ofInt 32 i).toInt ↔ -2 ^ 31 ≤ n ∧ n < 2 ^ 31 ∧ n ≡ i [ZMOD 2 ^ 32] := by
  rw [BitVec.toInt_ofInt, eq_comm, Int.bmod_eq_iff (by decide), Int.modEq_comm, Int.modEq_iff_dvd]
  norm_num

/-- Nothing is rounded on the way from a number to its word, `t` being the whole part. -/
structure WrapsExactly (x : Number) (t : ℤ) : Prop where
  whole : x.whole.worth? = some (t : ℚ)
  remainder : (x.whole.remainder (.ofNat wordCount)).worth? = some ((t.tmod (2 ^ 32) : ℤ) : ℚ)
  modulo : (x.whole.modulo (.ofNat wordCount)).worth? = some ((t % 2 ^ 32 : ℤ) : ℚ)
  clamp : ((x.whole.modulo (.ofNat wordCount)).clamp (wordCount - 1) : ℤ) = t % 2 ^ 32

theorem wrapsExactly {x : Number} {q : ℚ} (h : x.worth? = some q) :
    WrapsExactly x (wholePart q) := by
  have hpos : 0 < wordCount := by decide
  have hlt : wordCount < 2 ^ 53 := by decide
  have hremainder := Number.worth?_remainder_whole h hpos hlt
  obtain ⟨hmodulo, hclamp⟩ := Number.modulo_whole_exact h hpos hlt
  rw [cast_wordCount] at hremainder hmodulo hclamp
  exact ⟨Number.worth?_whole h, hremainder, hmodulo, hclamp⟩

/-- **Values become integers of 32 bits exactly.**  The word is the only integer that it can
    be, and no step on the way to it has rounded. -/
theorem word_exact (v : Value) :
    (∀ q : ℚ, v.toNumber.worth? = some q →
      (∀ n : ℤ, n = v.word.toInt ↔
        -2 ^ 31 ≤ n ∧ n < 2 ^ 31 ∧ n ≡ wholePart q [ZMOD 2 ^ 32]) ∧
      (v.shift : ℤ) = wholePart q % 32 ∧ v.shift ≤ 31 ∧
      WrapsExactly v.toNumber (wholePart q)) ∧
    (v.toNumber.worth? = none → v.word.toInt = 0 ∧ v.shift = 0) := by
  constructor
  · intro q hq
    have hword := word_eq_ofInt hq
    refine ⟨fun n => ?_, ?_, ?_, wrapsExactly hq⟩
    · rw [hword, eq_toInt_ofInt_iff]
    · rw [cast_shift, hword, BitVec.toInt_ofInt, bmod_emod]
    · rw [shift_eq]
      omega
  · intro hq
    rw [shift_eq, word_eq_zero hq]
    decide

/-- Minus 2^32 + 5.75 wraps around to minus 5 and shifts by 27. -/
theorem word_exact_wrapped :
    let v : Value := .number (.signed true ⟨1055 * binadeSize + 6029312, by decide⟩)
    v.toNumber.worth? = some (-4294967301.75) ∧ v.word.toInt = -5 ∧ v.shift = 27 := by
  intro v
  have hq : v.toNumber.worth? = some (-4294967301.75) := by
    show Number.worth? (.signed true _) = _
    rw [Number.worth?, if_pos (by decide)]
    norm_num [Magnitude.worth, Magnitude.significand, Magnitude.exponent]
  obtain ⟨hword, hshift, _⟩ := (word_exact v).1 _ hq
  have hwhole : wholePart (-4294967301.75) = -4294967301 := by
    rw [wholePart, if_neg (by norm_num), Int.ceil_eq_iff]
    norm_num
  rw [hwhole] at hword hshift
  refine ⟨hq, ((hword (-5)).mpr ⟨by decide, by decide, by decide⟩).symm, ?_⟩
  omega

end Value

end DequeMachine

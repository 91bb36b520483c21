/-
  DequeMachine/Proofs/Number/Written.lean
  =======================================
  **What is written is short, close and laid out in one of two ways.**

  The text of a number is a spelling, and the two layouts are two kinds of spellings.  A
  plain one has no power of ten, no zeros in front of the first digit but the one before
  the point, and none behind the last digit after the point (`IsPlain`).  A scientific one
  has a single digit before the point and a power of ten with an explicit sign
  (`IsScientific`).  Either way the digits that mean something are those of the shortest
  decimal (`exists_isPlain`, `exists_isScientific`), so that what the search found out about
  that decimal holds for the text (`number_text_spelling`).
-/
import DequeMachine.Proofs.Number.Literal
import DequeMachine.Proofs.Number.Shortest
import DequeMachine.Proofs.Number.Text

namespace DequeMachine

namespace Literal

/-! ### Two kinds of spellings -/

namespace Spelling

/-- The digits without the zeros in front of them and behind them. -/
def significant (s : Spelling) : List Char :=
  Text.trim (· == '0') (s.whole.chars ++ s.fraction.elim [] Digits.chars)

/-- If there is a point, the last digit behind it is not zero. -/
def EndsInDigit (s : Spelling) : Prop :=
  ∀ f, s.fraction = some f → ∃ c, f.chars.getLast? = some c ∧ c ≠ '0'

/-- Laid out in full, without needless zeros. -/
structure IsPlain (s : Spelling) : Prop where
  power_eq : s.power = none
  whole_ne_nil : s.whole.chars ≠ []
  whole_eq : s.whole.chars.head? = some '0' → s.whole.chars = ['0']
  endsInDigit : s.EndsInDigit

/-- One digit, the others behind the point, and a power of ten with its sign. -/
structure IsScientific (s : Spelling) : Prop where
  whole_eq : ∃ c, s.whole.chars = [c] ∧ c ≠ '0'
  endsInDigit : s.EndsInDigit
  power_eq : ∃ p, s.power = some p ∧ p.capital = false ∧
    p.sign = (if 0 ≤ p.value then .plus else .minus) ∧
    p.digits.chars = Nat.toDigits 10 p.value.natAbs

theorem IsPlain.not_isScientific {s : Spelling} (h : s.IsPlain) : ¬s.IsScientific := by
  rintro ⟨_, _, p, hp, _⟩
  rw [h.power_eq] at hp
  cases hp

theorem worth_eq_of_readDecimal {s : Spelling} {d : Decimal} (h : readDecimal s.unsigned = some d) :
    s.worth = d.worth := by
  obtain ⟨d', hd', hworth⟩ := exists_readDecimal_spelling s
  rw [h, Option.some.injEq] at hd'
  rw [← hworth, hd']

end Spelling

/-! ### The layouts are such spellings -/

theorem exists_power (e : Int) :
    ∃ p : Power, p.chars = 'e' :: Layout.exponent e ∧ p.capital = false ∧
      p.sign = (if 0 ≤ p.value then .plus else .minus) ∧
      p.digits.chars = Nat.toDigits 10 p.value.natAbs := by
  let digits : Digits := ⟨Nat.toDigits 10 e.natAbs, fun c hc =>
    Nat.isDigit_of_mem_toDigits (by decide) (by decide) hc⟩
  have hdigits : digits.value = e.natAbs := Nat.ofDigitChars_ten_toDigits
  by_cases hneg : e < 0
  · let power : Power := ⟨false, .minus, digits, Nat.toDigits_ne_nil⟩
    have hvalue : power.value = e := by
      rw [Power.value, hdigits]
      simp [power, Sign.isNegative, abs_of_neg hneg]
    refine ⟨power, ?_, rfl, ?_, ?_⟩
    · rw [Layout.exponent, if_pos hneg]
      rfl
    · rw [hvalue, if_neg (not_le.mpr hneg)]
    · rw [hvalue]
  · let power : Power := ⟨false, .plus, digits, Nat.toDigits_ne_nil⟩
    have hvalue : power.value = e := by
      rw [Power.value, hdigits]
      simp [power, Sign.isNegative, abs_of_nonneg (not_lt.mp hneg)]
    refine ⟨power, ?_, rfl, ?_, ?_⟩
    · rw [Layout.exponent, if_neg hneg]
      rfl
    · rw [hvalue, if_pos (not_lt.mp hneg)]
    · rw [hvalue]

/-- A row of digits without zeros at its ends. -/
structure IsSignificant (digits : List Char) : Prop where
  isDigit : ∀ c ∈ digits, c.isDigit = true
  ne_nil : digits ≠ []
  head_ne_zero : ∀ c, digits.head? = some c → c ≠ '0'
  last_ne_zero : ∀ c, digits.getLast? = some c → c ≠ '0'

namespace IsSignificant

variable {digits : List Char} (h : IsSignificant digits)
include h

theorem exists_getLast? : ∃ c, digits.getLast? = some c ∧ c ≠ '0' := by
  obtain ⟨c, hc⟩ := Option.isSome_iff_exists.mp (List.getLast?_isSome.mpr h.ne_nil)
  exact ⟨c, hc, h.last_ne_zero c hc⟩

theorem trim_zeros (before behind : Nat) :
    Text.trim (· == '0') (List.replicate before '0' ++ (digits ++ List.replicate behind '0')) =
      digits := by
  have hzeros : ∀ n, ∀ c ∈ List.replicate n '0', (c == '0') = true := by
    intro n c hc
    rw [List.eq_of_mem_replicate hc]
    rfl
  refine Text.trim_append (hzeros before) (hzeros behind) h.ne_nil ?_ ?_
  · intro c hc
    exact beq_eq_false_iff_ne.mpr (h.head_ne_zero c hc)
  · intro c hc
    exact beq_eq_false_iff_ne.mpr (h.last_ne_zero c hc)

theorem trim_eq_self : Text.trim (· == '0') digits = digits := by
  have htrim := h.trim_zeros 0 0
  rwa [List.replicate_zero, List.nil_append, List.append_nil] at htrim

theorem exists_isPlain (sign : Sign) (point : Int) :
    ∃ s : Spelling, s.sign = sign ∧ s.unsigned = Layout.full digits point ∧ s.IsPlain ∧
      s.significant = digits := by
  have hzeros : ∀ n, ∀ c ∈ List.replicate n '0', c.isDigit = true := by
    intro n c hc
    rw [List.eq_of_mem_replicate hc]
    rfl
  unfold Layout.full
  -- the point stands in front of the digits, behind all of them, or among them
  split
  · let fraction : Digits := ⟨List.replicate (-point).toNat '0' ++ digits, fun c hc =>
      (List.mem_append.mp hc).elim (hzeros _ c) (h.isDigit c)⟩
    let whole : Digits := ⟨['0'], List.forall_mem_singleton.mpr rfl⟩
    refine ⟨⟨sign, whole, some fraction, none, by simp [whole]⟩, rfl, ?_,
      ⟨rfl, by simp [whole], fun _ => rfl, ?_⟩, ?_⟩
    · simp [Spelling.unsigned, Spelling.mantissa, whole, fraction]
    · rintro f ⟨⟩
      obtain ⟨c, hc, hzero⟩ := h.exists_getLast?
      exact ⟨c, by simp [fraction, hc], hzero⟩
    · have htrim := h.trim_zeros ((-point).toNat + 1) 0
      rwa [List.replicate_zero, List.append_nil, List.replicate_succ] at htrim
  · rename_i hpoint
    split
    · let whole : Digits := ⟨digits ++ List.replicate (point.toNat - digits.length) '0', fun c hc =>
        (List.mem_append.mp hc).elim (h.isDigit c) (hzeros _ c)⟩
      have hwhole : whole.chars ≠ [] := by simp [whole, h.ne_nil]
      refine ⟨⟨sign, whole, none, none, by simpa using hwhole⟩, rfl, ?_,
        ⟨rfl, hwhole, fun hzero => ?_, ?_⟩, ?_⟩
      · simp [Spelling.unsigned, Spelling.mantissa, whole]
      · rw [List.head?_append_of_ne_nil _ h.ne_nil] at hzero
        exact absurd rfl (h.head_ne_zero '0' hzero)
      · rintro f ⟨⟩
      · have htrim := h.trim_zeros 0 (point.toNat - digits.length)
        simpa [Spelling.significant, whole] using htrim
    · rename_i hinside
      let whole : Digits := ⟨digits.take point.toNat, fun c hc =>
        h.isDigit c (List.mem_of_mem_take hc)⟩
      let fraction : Digits := ⟨digits.drop point.toNat, fun c hc =>
        h.isDigit c (List.mem_of_mem_drop hc)⟩
      have hwhole : whole.chars ≠ [] := by simp [whole, h.ne_nil, hpoint]
      refine ⟨⟨sign, whole, some fraction, none, by simp [hwhole]⟩, rfl, ?_,
        ⟨rfl, hwhole, fun hzero => ?_, ?_⟩, ?_⟩
      · simp [Spelling.unsigned, Spelling.mantissa, whole, fraction]
      · rw [List.head?_take, if_neg (by omega)] at hzero
        exact absurd rfl (h.head_ne_zero '0' hzero)
      · rintro f ⟨⟩
        obtain ⟨c, hc, hzero⟩ := h.exists_getLast?
        exact ⟨c, by rw [List.getLast?_drop, if_neg hinside, hc], hzero⟩
      · rw [Spelling.significant, Option.elim_some, List.take_append_drop]
        exact h.trim_eq_self

theorem exists_isScientific (sign : Sign) (point : Int) :
    ∃ s : Spelling, s.sign = sign ∧ s.unsigned = Layout.scientific digits point ∧
      s.IsScientific ∧ s.significant = digits := by
  obtain ⟨first, others, rfl⟩ := List.exists_cons_of_ne_nil h.ne_nil
  have hfirst : ∀ c ∈ [first], c.isDigit = true := by
    intro c hc
    rw [List.mem_singleton.mp hc]
    exact h.isDigit first List.mem_cons_self
  have hothers : ∀ c ∈ others, c.isDigit = true := by
    intro c hc
    exact h.isDigit c (List.mem_cons_of_mem first hc)
  obtain ⟨power, hchars, hpower⟩ := exists_power (point - 1)
  rcases others with _ | ⟨second, rest⟩
  · refine ⟨⟨sign, ⟨[first], hfirst⟩, none, some power, by simp⟩, rfl, ?_,
      ⟨?_, ?_, power, rfl, hpower⟩, ?_⟩
    · simp [Spelling.unsigned, Spelling.mantissa, Layout.scientific, hchars]
    · exact ⟨first, rfl, h.head_ne_zero first rfl⟩
    · rintro f ⟨⟩
    · exact h.trim_eq_self
  · refine ⟨⟨sign, ⟨[first], hfirst⟩, some ⟨second :: rest, hothers⟩, some power, by simp⟩, rfl, ?_,
      ⟨?_, ?_, power, rfl, hpower⟩, ?_⟩
    · simp [Spelling.unsigned, Spelling.mantissa, Layout.scientific, hchars]
    · exact ⟨first, rfl, h.head_ne_zero first rfl⟩
    · rintro f ⟨⟩
      obtain ⟨c, hc, hzero⟩ := h.exists_getLast?
      exact ⟨c, hc, hzero⟩
    · exact h.trim_eq_self

end IsSignificant

end Literal

/-! ### Numbers -/

theorem Decimal.isSignificant_digits {d : Decimal} (hd : d.coefficient ≠ 0) :
    Literal.IsSignificant d.digits :=
  ⟨fun _ hc => isDigit_of_mem_digits hc, digits_ne_nil hd, fun _ hc => head?_digits hd hc,
    fun _ hc => getLast?_digits hc⟩

namespace Magnitude

open Literal

def IsModerate (m : Magnitude) : Prop :=
  Layout.fullFrom.worth ≤ m.worth ∧ m.worth < Layout.fullBelow.worth

/-- The text of a magnitude is a spelling of its shortest decimal. -/
theorem exists_spelling_chars {m : Magnitude} (hfinite : m.isFinite = true)
    (hzero : m.isZero = false) (sign : Sign) :
    ∃ s : Spelling, s.sign = sign ∧ s.unsigned = m.chars ∧ s.worth = m.shortest.worth ∧
      s.significant = m.shortest.digits ∧ (m.IsModerate → s.IsPlain) ∧
      (¬m.IsModerate → s.IsScientific) := by
  have hsignificant := Decimal.isSignificant_digits (coefficient_shortest_ne_zero hzero)
  have hrange : m.IsModerate ↔
      Layout.fullFrom.rank ≤ m.rank ∧ m.rank < Layout.fullBelow.rank := by
    rw [IsModerate, worth_le_iff, worth_lt_iff]
  simp only [chars, hzero, hfinite, Bool.false_eq_true, Bool.not_true, if_false]
  split
  · rename_i hfull
    obtain ⟨s, hsign, hchars, hplain, hdigits⟩ :=
      hsignificant.exists_isPlain sign m.shortest.point
    obtain ⟨d, hd, hworth⟩ :=
      exists_readDecimal_full hsignificant.isDigit hsignificant.ne_nil m.shortest.point
    refine ⟨s, hsign, hchars, ?_, hdigits, fun _ => hplain, fun h => absurd (hrange.mpr hfull) h⟩
    rw [← hchars] at hd
    rw [Spelling.worth_eq_of_readDecimal hd, hworth, ← Decimal.worth_eq_digits]
  · rename_i hfull
    obtain ⟨s, hsign, hchars, hscientific, hdigits⟩ :=
      hsignificant.exists_isScientific sign m.shortest.point
    obtain ⟨d, hd, hworth⟩ :=
      exists_readDecimal_scientific hsignificant.isDigit hsignificant.ne_nil m.shortest.point
    refine ⟨s, hsign, hchars, ?_, hdigits, fun h => absurd (hrange.mp h) hfull,
      fun _ => hscientific⟩
    rw [← hchars] at hd
    rw [Spelling.worth_eq_of_readDecimal hd, hworth, ← Decimal.worth_eq_digits]

end Magnitude

namespace Value

open Literal

/-- **What is written is short, close and laid out by size.**  The text of a finite number
    other than zero is a spelling that the number is nearest to.  No decimal with fewer digits
    will do, and none with as many that does is closer.  It is laid out in full from 10^-6 up to
    10^21, in terms of the numbers nearest to these, and with an exponent outside of
    that. -/
theorem number_text_spelling (negative : Bool) {m : Magnitude} (hfinite : m.isFinite = true)
    (hzero : m.isZero = false) :
    ∃ s : Spelling, (number (.signed negative m)).text.toList = s.chars ∧
      s.sign = (if negative then .minus else .none) ∧
      m.IsNearest s.worth ∧
      (∃ e : Int, s.worth = Nat.ofDigitChars 10 s.significant 0 * 10 ^ e) ∧
      (∀ (c : Nat) (e : Int), c < 10 ^ (s.significant.length - 1) → ¬m.IsNearest (c * 10 ^ e)) ∧
      (∀ (c : Nat) (e : Int), c < 10 ^ s.significant.length → m.IsNearest (c * 10 ^ e) →
        |m.worth - s.worth| ≤ |m.worth - c * 10 ^ e|) ∧
      ∃ low high : Magnitude, low.IsNearest (10 ^ (-6 : Int)) ∧ high.IsNearest (10 ^ 21) ∧
        (s.IsPlain ↔ low.worth ≤ m.worth ∧ m.worth < high.worth) ∧
        (s.IsScientific ↔ ¬(low.worth ≤ m.worth ∧ m.worth < high.worth)) := by
  obtain ⟨s, hsign, hchars, hworth, hdigits, hplain, hscientific⟩ :=
    Magnitude.exists_spelling_chars hfinite hzero (if negative then .minus else .none)
  obtain ⟨n, hn, hcoefficient, hfewest, hclosest⟩ := Magnitude.exists_digits_shortest hfinite hzero
  have hlength : s.significant.length ≤ n := hdigits ▸ Decimal.length_digits_le hn hcoefficient
  have hfrom : Layout.fullFrom.IsNearest (10 ^ (-6 : Int)) := by
    have hnearest := (⟨1, -6⟩ : Decimal).isNearest_toMagnitude
    rwa [Decimal.worth, Nat.cast_one, one_mul] at hnearest
  have hbelow : Layout.fullBelow.IsNearest (10 ^ 21) := by
    have hnearest := (⟨1, 21⟩ : Decimal).isNearest_toMagnitude
    rwa [Decimal.worth, Nat.cast_one, one_mul, zpow_ofNat] at hnearest
  refine ⟨s, ?_, hsign, ?_, ?_, ?_, ?_, Layout.fullFrom, Layout.fullBelow, hfrom, hbelow, ?_, ?_⟩
  · rw [text, Number.text, String.toList_ofList, Spelling.chars, hsign, hchars]
    cases negative with
    | false => rfl
    | true => rfl
  · rw [hworth]
    exact Decimal.toMagnitude_eq_iff.mp m.toMagnitude_shortest
  · exact ⟨_, by rw [hworth, hdigits, ← Decimal.worth_eq_digits]⟩
  · intro c e hc
    have hfewer := Nat.sub_le_sub_right hlength 1
    exact hfewest c e (hc.trans_le (Nat.pow_le_pow_right (by decide) hfewer))
  · intro c e hc hnearest
    rw [hworth]
    exact hclosest c e (hc.trans_le (Nat.pow_le_pow_right (by decide) hlength)) hnearest
  · refine ⟨fun h => ?_, hplain⟩
    by_contra hout
    exact h.not_isScientific (hscientific hout)
  · refine ⟨fun h hin => ?_, hscientific⟩
    exact (hplain hin).not_isScientific h

/-- The smallest magnitude under a sign.  A single digit tells it, although it is far from
    what that digit says. -/
theorem number_text_spelling_smallest :
    (number (.signed true ⟨1, by decide⟩)).text = "-5e-324" ∧
      ∃ s : Spelling, s.chars = "-5e-324".toList ∧ s.sign = .minus ∧
        (⟨1, by decide⟩ : Magnitude).IsNearest s.worth := by
  have htext : (number (.signed true ⟨1, by decide⟩)).text = "-5e-324" := by decide +kernel
  obtain ⟨s, hchars, hsign, hnearest, _⟩ :=
    number_text_spelling true (show (⟨1, by decide⟩ : Magnitude).isFinite = true by decide)
      (by decide)
  rw [htext] at hchars
  exact ⟨htext, s, hchars.symm, hsign, hnearest⟩

end Value

end DequeMachine

/-
  DequeMachine/Proofs/Number/Layout.lean
  ======================================
  **Both layouts of a decimal are read back at its worth.**

  The digits of a decimal are its coefficient without the zeros at the end, and
  the place of the point makes up for them (`worth_eq_digits`).  A layout moves
  digits around the point, adds zeros on either side and may write a power of ten
  behind them; whatever it does, reading it gives a decimal that is worth the same
  (`exists_readDecimal_full`, `exists_readDecimal_scientific`).
-/
import DequeMachine.Number.Layout
import DequeMachine.Number.Literal
import DequeMachine.Proofs.Number.Decimal
import DequeMachine.Proofs.Text

namespace DequeMachine

/-! ### The digits of a decimal -/

namespace Decimal

theorem exists_toDigits_eq (d : Decimal) :
    ∃ zeros, Nat.toDigits 10 d.coefficient = d.digits ++ List.replicate zeros '0' := by
  obtain ⟨tail, htail, hzero⟩ :=
    Text.exists_trimEnd_append (· == '0') (Nat.toDigits 10 d.coefficient)
  refine ⟨tail.length, ?_⟩
  rw [← List.eq_replicate_of_mem fun c hc => beq_iff_eq.mp (hzero c hc)]
  exact htail

theorem isDigit_of_mem_digits {d : Decimal} {c : Char} (hc : c ∈ d.digits) :
    c.isDigit = true := by
  obtain ⟨zeros, hzeros⟩ := d.exists_toDigits_eq
  refine Nat.isDigit_of_mem_toDigits (b := 10) (n := d.coefficient) (by decide) (by decide) ?_
  rw [hzeros]
  exact List.mem_append_left _ hc

/-- The coefficient is worth its digits with the missing zeros behind them. -/
theorem exists_coefficient_eq (d : Decimal) :
    ∃ zeros, d.coefficient = 10 ^ zeros * Nat.ofDigitChars 10 d.digits 0 ∧
      (Nat.toDigits 10 d.coefficient).length = d.digits.length + zeros := by
  obtain ⟨zeros, hzeros⟩ := d.exists_toDigits_eq
  refine ⟨zeros, ?_, by simp [hzeros]⟩
  calc d.coefficient
      = Nat.ofDigitChars 10 (Nat.toDigits 10 d.coefficient) 0 :=
        Nat.ofDigitChars_ten_toDigits.symm
    _ = 10 ^ zeros * Nat.ofDigitChars 10 d.digits 0 := by
        rw [hzeros, Nat.ofDigitChars_append, Nat.ofDigitChars_replicate_zero]

theorem digits_ne_nil {d : Decimal} (hd : d.coefficient ≠ 0) : d.digits ≠ [] := by
  intro hnil
  obtain ⟨zeros, hzeros, _⟩ := d.exists_coefficient_eq
  rw [hnil, Nat.ofDigitChars_nil, Nat.mul_zero] at hzeros
  exact hd hzeros

theorem getLast?_digits {d : Decimal} {c : Char} (hc : d.digits.getLast? = some c) : c ≠ '0' := by
  have := Text.kind_of_getLast?_trimEnd hc
  simpa using this

theorem head?_toDigits {n : Nat} (hn : n ≠ 0) {c : Char} (hc : (Nat.toDigits 10 n).head? = some c) :
    c ≠ '0' := by
  induction n using Nat.strongRecOn with
  | ind n ih =>
    by_cases hlt : n < 10
    · rw [Nat.toDigits_of_lt_base hlt, List.head?_cons, Option.some.injEq] at hc
      rw [← hc]
      exact fun h => hn (Nat.digitChar_eq_zero.mp h)
    · rw [Nat.toDigits_of_base_le (by decide) (Nat.not_lt.mp hlt),
        List.head?_append_of_ne_nil _ Nat.toDigits_ne_nil] at hc
      exact ih (n / 10) (by omega) (by omega) hc

theorem head?_digits {d : Decimal} (hd : d.coefficient ≠ 0) {c : Char}
    (hc : d.digits.head? = some c) : c ≠ '0' := by
  obtain ⟨zeros, hzeros⟩ := d.exists_toDigits_eq
  apply head?_toDigits hd
  rwa [hzeros, List.head?_append_of_ne_nil _ (digits_ne_nil hd)]

/-- A power of ten has a single digit, although it is the first number with one more place. -/
theorem length_digits_le {d : Decimal} {n : Nat} (hn : n ≠ 0) (hd : d.coefficient ≤ 10 ^ n) :
    d.digits.length ≤ n := by
  obtain ⟨zeros, hzeros⟩ := d.exists_toDigits_eq
  have hlength : (Nat.toDigits 10 d.coefficient).length = d.digits.length + zeros := by
    simp [hzeros]
  rcases Nat.lt_or_eq_of_le hd with hlt | heq
  · have := (Nat.length_toDigits_le_iff (by decide) (Nat.pos_of_ne_zero hn)).mpr hlt
    omega
  · have hle : (Nat.toDigits 10 d.coefficient).length ≤ n + 1 := by
      rw [Nat.length_toDigits_le_iff (by decide) (Nat.succ_pos n), heq]
      exact Nat.pow_lt_pow_right (by decide) (Nat.lt_succ_self n)
    have hlast : (Nat.toDigits 10 d.coefficient).getLast? = some '0' := by
      obtain ⟨k, rfl⟩ := Nat.exists_eq_succ_of_ne_zero hn
      rw [heq, Nat.pow_succ', Nat.toDigits_of_base_le (by decide)
        (Nat.le_mul_of_pos_right 10 (Nat.pow_pos (by decide))), Nat.mul_mod_right]
      simp
    have hne : zeros ≠ 0 := by
      rintro rfl
      rw [hzeros, List.replicate_zero, List.append_nil] at hlast
      exact getLast?_digits hlast rfl
    omega

/-- A decimal is worth its digits, as far from the point as there are digits on the
    wrong side of it. -/
theorem worth_eq_digits (d : Decimal) :
    d.worth = Nat.ofDigitChars 10 d.digits 0 * 10 ^ (d.point - d.digits.length) := by
  obtain ⟨zeros, hcoefficient, hlength⟩ := d.exists_coefficient_eq
  have hexp : d.point - d.digits.length = (zeros : Int) + d.exponent := by
    rw [point, hlength]
    push_cast
    ring
  have hcast : (d.coefficient : ℚ) = 10 ^ zeros * Nat.ofDigitChars 10 d.digits 0 := by
    exact_mod_cast hcoefficient
  rw [worth, hexp, hcast, zpow_add₀ (by norm_num), zpow_natCast]
  ring

end Decimal

/-! ### Reading what is laid out -/

namespace Literal

theorem isDigit_ne {c d : Char} (hc : c.isDigit = true) (hd : d.isDigit = false) : c ≠ d := by
  rintro rfl
  rw [hc] at hd
  cases hd

theorem readDecimal_whole {digits : List Char} (hdigits : ∀ c ∈ digits, c.isDigit = true)
    (hne : digits ≠ []) : readDecimal digits = some ⟨Nat.ofDigitChars 10 digits 0, 0⟩ := by
  have hpower : Text.cutAt (fun c => c == 'e' || c == 'E') digits = (digits, none) := by
    apply Text.cutAt_of_forall
    intro c hc
    simp [isDigit_ne (hdigits c hc) (d := 'e') rfl, isDigit_ne (hdigits c hc) (d := 'E') rfl]
  have hpoint : Text.cutAt (· == '.') digits = (digits, none) := by
    apply Text.cutAt_of_forall
    intro c hc
    simp [isDigit_ne (hdigits c hc) (d := '.') rfl]
  have hall : allDigits digits = true := List.all_eq_true.mpr hdigits
  simp [readDecimal, hpower, hpoint, hall, hne]

theorem readDecimal_point {whole fraction : List Char}
    (hwhole : ∀ c ∈ whole, c.isDigit = true) (hfraction : ∀ c ∈ fraction, c.isDigit = true)
    (hne : whole ++ fraction ≠ []) :
    readDecimal (whole ++ '.' :: fraction) =
      some ⟨Nat.ofDigitChars 10 (whole ++ fraction) 0, -fraction.length⟩ := by
  have hpower : Text.cutAt (fun c => c == 'e' || c == 'E') (whole ++ '.' :: fraction) =
      (whole ++ '.' :: fraction, none) := by
    apply Text.cutAt_of_forall
    intro c hc
    rcases List.mem_append.mp hc with hc | hc
    · simp [isDigit_ne (hwhole c hc) (d := 'e') rfl, isDigit_ne (hwhole c hc) (d := 'E') rfl]
    · rcases List.mem_cons.mp hc with rfl | hc
      · rfl
      · simp [isDigit_ne (hfraction c hc) (d := 'e') rfl,
          isDigit_ne (hfraction c hc) (d := 'E') rfl]
  have hpoint : Text.cutAt (· == '.') (whole ++ '.' :: fraction) = (whole, some fraction) := by
    refine Text.cutAt_append_cons (fun c hc => ?_) rfl
    simp [isDigit_ne (hwhole c hc) (d := '.') rfl]
  have hall : allDigits (whole ++ fraction) = true := by
    apply List.all_eq_true.mpr
    intro c hc
    exact (List.mem_append.mp hc).elim (hwhole c) (hfraction c)
  simp only [readDecimal, hpower, hpoint, Option.getD_some, hall, List.isEmpty_eq_false_iff.mpr hne]
  simp

/-- An exponent behind a mantissa moves its point. -/
theorem readDecimal_power {mantissa power : List Char} {mark : Char} {d : Decimal} {e : Int}
    (hnoMark : ∀ c ∈ mantissa, c ≠ 'e' ∧ c ≠ 'E') (hmark : mark = 'e' ∨ mark = 'E')
    (hd : readDecimal mantissa = some d) (he : readExponent power = some e) :
    readDecimal (mantissa ++ mark :: power) = some ⟨d.coefficient, e + d.exponent⟩ := by
  have hnone : ∀ c ∈ mantissa, (c == 'e' || c == 'E') = false := by
    intro c hc
    simp [hnoMark c hc]
  have hcut : Text.cutAt (fun c => c == 'e' || c == 'E') (mantissa ++ mark :: power) =
      (mantissa, some power) :=
    Text.cutAt_append_cons hnone (by simpa [Bool.or_eq_true, beq_iff_eq] using hmark)
  rw [readDecimal, Text.cutAt_of_forall hnone] at hd
  rw [readDecimal, hcut]
  revert hd
  rcases Text.cutAt (· == '.') mantissa with ⟨whole, fraction⟩
  simp only [he]
  split
  · intro hd
    cases hd
  · intro hd
    cases hd
    simp [Int.sub_eq_add_neg]

/-- Without the mark of a radix, a literal announces none. -/
theorem radix?_of_forall {cs : List Char} (h : ∀ c ∈ cs, radixOfMark? c = none) :
    radix? cs = none := by
  unfold radix?
  split
  · rename_i mark rest
    rw [h mark (by simp), Option.map_none]
  · rfl

theorem readExponent_exponent (e : Int) : readExponent (Layout.exponent e) = some e := by
  have hdigits : allDigits (Nat.toDigits 10 e.natAbs) = true :=
    List.all_eq_true.mpr fun c hc => Nat.isDigit_of_mem_toDigits (by decide) (by decide) hc
  have hne : (Nat.toDigits 10 e.natAbs).isEmpty = false :=
    List.isEmpty_eq_false_iff.mpr Nat.toDigits_ne_nil
  by_cases hneg : e < 0
  · simp only [readExponent, Layout.exponent, if_pos hneg, cutSign, hne, hdigits,
      Nat.ofDigitChars_ten_toDigits]
    simp [abs_of_neg hneg]
  · simp only [readExponent, Layout.exponent, if_neg hneg, cutSign, hne, hdigits,
      Nat.ofDigitChars_ten_toDigits]
    simp [abs_of_nonneg (not_lt.mp hneg)]

/-! ### The layouts -/

/-- Laid out in full, digits are read at their worth. -/
theorem exists_readDecimal_full {digits : List Char} (hdigits : ∀ c ∈ digits, c.isDigit = true)
    (hne : digits ≠ []) (point : Int) :
    ∃ d, readDecimal (Layout.full digits point) = some d ∧
      d.worth = Nat.ofDigitChars 10 digits 0 * 10 ^ (point - digits.length) := by
  unfold Layout.full
  split
  · rename_i hpoint
    have hfraction : ∀ c ∈ List.replicate (-point).toNat '0' ++ digits, c.isDigit = true := by
      intro c hc
      rcases List.mem_append.mp hc with hc | hc
      · rw [List.eq_of_mem_replicate hc]
        rfl
      · exact hdigits c hc
    have hexp : -((List.replicate (-point).toNat '0' ++ digits).length : Int) =
        point - digits.length := by
      rw [List.length_append, List.length_replicate]
      omega
    have hzeros : Nat.ofDigitChars 10 (['0'] ++ (List.replicate (-point).toNat '0' ++ digits)) 0 =
        Nat.ofDigitChars 10 digits 0 := by
      rw [List.singleton_append, Nat.ofDigitChars_cons, Nat.ofDigitChars_append,
        Nat.ofDigitChars_replicate_zero]
      simp
    have hwhole : ∀ c ∈ ['0'], c.isDigit = true := List.all_eq_true.mp rfl
    refine ⟨_, readDecimal_point hwhole hfraction (by simp), ?_⟩
    rw [Decimal.worth, hzeros, hexp]
  · rename_i hpoint
    split
    · rename_i hbefore
      obtain ⟨zeros, hzeros⟩ : ∃ zeros : Nat, point = digits.length + zeros :=
        ⟨point.toNat - digits.length, by omega⟩
      have hpad : point.toNat - digits.length = zeros := by omega
      have hwhole : ∀ c ∈ digits ++ List.replicate zeros '0', c.isDigit = true := by
        intro c hc
        rcases List.mem_append.mp hc with hc | hc
        · exact hdigits c hc
        · rw [List.eq_of_mem_replicate hc]
          rfl
      rw [hpad]
      refine ⟨_, readDecimal_whole hwhole (by simp [hne]), ?_⟩
      have hexp : point - digits.length = zeros := by omega
      rw [Decimal.worth, Nat.ofDigitChars_append, Nat.ofDigitChars_replicate_zero, hexp,
        zpow_natCast]
      push_cast
      ring
    · rename_i hinside
      have htake : ∀ c ∈ digits.take point.toNat, c.isDigit = true := by
        intro c hc
        exact hdigits c (List.mem_of_mem_take hc)
      have hdrop : ∀ c ∈ digits.drop point.toNat, c.isDigit = true := by
        intro c hc
        exact hdigits c (List.mem_of_mem_drop hc)
      refine ⟨_, readDecimal_point htake hdrop (by rwa [List.take_append_drop]), ?_⟩
      have hexp : -((digits.drop point.toNat).length : Int) = point - digits.length := by
        rw [List.length_drop]
        omega
      rw [Decimal.worth, List.take_append_drop, hexp]

/-- Laid out with an exponent, digits are read at their worth. -/
theorem exists_readDecimal_scientific {digits : List Char}
    (hdigits : ∀ c ∈ digits, c.isDigit = true) (hne : digits ≠ []) (point : Int) :
    ∃ d, readDecimal (Layout.scientific digits point) = some d ∧
      d.worth = Nat.ofDigitChars 10 digits 0 * 10 ^ (point - digits.length) := by
  obtain ⟨first, behind, rfl⟩ := List.exists_cons_of_ne_nil hne
  have hpower := readExponent_exponent (point - 1)
  have hnoMark : ∀ c ∈ first :: behind, c ≠ 'e' ∧ c ≠ 'E' := by
    intro c hc
    exact ⟨isDigit_ne (hdigits c hc) rfl, isDigit_ne (hdigits c hc) rfl⟩
  rcases behind with _ | ⟨second, others⟩
  · -- a single digit has no point behind it
    refine ⟨_, readDecimal_power hnoMark (.inl rfl) (readDecimal_whole hdigits hne) hpower, ?_⟩
    simp [Decimal.worth]
  · have hfirst : ∀ c ∈ [first], c.isDigit = true := by
      intro c hc
      exact hdigits c (by simp_all)
    have hothers : ∀ c ∈ second :: others, c.isDigit = true := by
      intro c hc
      exact hdigits c (List.mem_cons_of_mem _ hc)
    have hmark : ∀ c ∈ [first] ++ '.' :: second :: others, c ≠ 'e' ∧ c ≠ 'E' := by
      intro c hc
      rcases List.mem_append.mp hc with hc | hc
      · exact hnoMark c (by simp_all)
      · rcases List.mem_cons.mp hc with rfl | hc
        · decide
        · exact hnoMark c (List.mem_cons_of_mem _ hc)
    have hmantissa := readDecimal_point hfirst hothers (by simp)
    refine ⟨_, readDecimal_power hmark (.inl rfl) hmantissa hpower, ?_⟩
    have hexp : point - 1 + -((second :: others).length : Int) =
        point - (first :: second :: others).length := by
      simp only [List.length_cons]
      push_cast
      ring
    rw [Decimal.worth, hexp, List.singleton_append]

end Literal

end DequeMachine

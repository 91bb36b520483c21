/-
  DequeMachine/Proofs/Number/Text.lean
  ====================================
  **Every number is read back from its text.**

  The text of a number consists of few characters (`isNumeral`), none of which is
  blank, separates tokens or marks anything, and it begins with a digit, a minus
  sign or the `I` of infinity.  With both layouts read at their worth, this takes
  a text through the reader in one piece: past the margins, which there are none
  of, past the radix marks, which do not occur, past the sign, and through the
  decimal to the magnitude that was written (`read?_text`).

  What is not a number and the truth values have texts that are no literals, so
  that a text tells which value it is the text of.
-/
import DequeMachine.Proofs.Number.Layout
import DequeMachine.Value

namespace DequeMachine

/-! ### The characters of numbers -/

namespace Layout

/-- Is this a character that occurs in the text of a number? -/
def isNumeral (c : Char) : Bool :=
  c.isDigit || ['+', '-', '.', 'e', 'I', 'n', 'f', 'i', 't', 'y'].contains c

theorem isNumeral_of_isDigit {c : Char} (hc : c.isDigit = true) : isNumeral c = true := by
  rw [isNumeral, hc, Bool.true_or]

theorem isNumeral_ne {c d : Char} (hc : isNumeral c = true) (hd : isNumeral d = false) :
    c ≠ d := by
  rintro rfl
  rw [hc] at hd
  cases hd

theorem isBlank_of_isNumeral {c : Char} (hc : isNumeral c = true) : Text.isBlank c = false := by
  rcases Bool.or_eq_true _ _ ▸ hc with hdigit | hmark
  · have hlow : 48 ≤ c.toNat := by
      simp only [Char.isDigit, Bool.and_eq_true, decide_eq_true_eq] at hdigit
      exact hdigit.1
    have hhigh : c.toNat ≤ 57 := by
      simp only [Char.isDigit, Bool.and_eq_true, decide_eq_true_eq] at hdigit
      exact hdigit.2
    simp only [Text.isBlank, Text.blankRuns, List.any_cons, List.any_nil, Bool.or_eq_false_iff,
      Bool.and_eq_false_iff, decide_eq_false_iff_not, and_true]
    omega
  · have hall : (['+', '-', '.', 'e', 'I', 'n', 'f', 'i', 't', 'y'].all
        fun d => !Text.isBlank d) = true := by decide
    have hblank := List.all_eq_true.mp hall c (List.contains_iff_mem.mp hmark)
    exact Bool.not_eq_true' _ ▸ hblank

section Layouts

variable {digits : List Char} (hdigits : ∀ c ∈ digits, c.isDigit = true) (point : Int)
include hdigits

theorem isNumeral_of_mem_full : ∀ c ∈ full digits point, isNumeral c = true := by
  have hzeros : ∀ n, ∀ c ∈ List.replicate n '0', isNumeral c = true := by
    intro n c hc
    rw [List.eq_of_mem_replicate hc]
    rfl
  have hnumeral : ∀ c ∈ digits, isNumeral c = true := by
    intro c hc
    exact isNumeral_of_isDigit (hdigits c hc)
  unfold full
  intro c hc
  split at hc
  · simp only [List.mem_cons, List.mem_append] at hc
    rcases hc with rfl | rfl | hc | hc
    · rfl
    · rfl
    · exact hzeros _ c hc
    · exact hnumeral c hc
  · split at hc
    · rcases List.mem_append.mp hc with hc | hc
      · exact hnumeral c hc
      · exact hzeros _ c hc
    · simp only [List.mem_cons, List.mem_append] at hc
      rcases hc with hc | rfl | hc
      · exact hnumeral c (List.mem_of_mem_take hc)
      · rfl
      · exact hnumeral c (List.mem_of_mem_drop hc)

theorem isNumeral_of_mem_scientific : ∀ c ∈ scientific digits point, isNumeral c = true := by
  have hnumeral : ∀ c ∈ digits, isNumeral c = true := by
    intro c hc
    exact isNumeral_of_isDigit (hdigits c hc)
  have hexponent : ∀ c ∈ exponent (point - 1), isNumeral c = true := by
    intro c hc
    rcases List.mem_cons.mp hc with rfl | hc
    · split <;> rfl
    · exact isNumeral_of_isDigit (Nat.isDigit_of_mem_toDigits (by decide) (by decide) hc)
  intro c hc
  simp only [scientific, List.mem_append, List.mem_cons] at hc
  rcases hc with (hc | hc) | rfl | hc
  · exact hnumeral c (List.mem_of_mem_take hc)
  · split at hc
    · cases hc
    · rcases List.mem_cons.mp hc with rfl | hc
      · rfl
      · exact hnumeral c (List.mem_of_mem_drop hc)
  · rfl
  · exact hexponent c hc

theorem exists_full_eq_cons (hne : digits ≠ []) :
    ∃ first behind, full digits point = first :: behind ∧ first.isDigit = true := by
  obtain ⟨d, others, rfl⟩ := List.exists_cons_of_ne_nil hne
  have hd : d.isDigit = true := hdigits d List.mem_cons_self
  unfold full
  split
  · exact ⟨_, _, rfl, rfl⟩
  · split
    · exact ⟨d, _, rfl, hd⟩
    · obtain ⟨n, hn⟩ : ∃ n, point.toNat = n + 1 := ⟨point.toNat - 1, by omega⟩
      rw [hn]
      exact ⟨d, _, rfl, hd⟩

theorem exists_scientific_eq_cons (hne : digits ≠ []) :
    ∃ first behind, scientific digits point = first :: behind ∧ first.isDigit = true := by
  obtain ⟨d, others, rfl⟩ := List.exists_cons_of_ne_nil hne
  exact ⟨d, _, rfl, hdigits d List.mem_cons_self⟩

end Layouts

end Layout

/-! ### Magnitudes -/

namespace Magnitude

open Layout

theorem isNumeral_of_mem_chars (m : Magnitude) : ∀ c ∈ m.chars, isNumeral c = true := by
  have hdigits : ∀ c ∈ m.shortest.digits, c.isDigit = true := by
    intro c hc
    exact Decimal.isDigit_of_mem_digits hc
  unfold chars
  split
  · exact List.all_eq_true.mp rfl
  · split
    · exact List.all_eq_true.mp rfl
    · simp only
      split
      · exact isNumeral_of_mem_full hdigits _
      · exact isNumeral_of_mem_scientific hdigits _

theorem shortest_digits_ne_nil {m : Magnitude} (hzero : m.isZero = false) :
    m.shortest.digits ≠ [] :=
  Decimal.digits_ne_nil (coefficient_shortest_ne_zero hzero)

/-- The text of a magnitude begins with a digit, or else with the `I` of infinity,
    and never with a sign. -/
theorem exists_chars_eq_cons (m : Magnitude) :
    ∃ first behind, m.chars = first :: behind ∧
      (first.isDigit = true ∨ first = 'I' ∧ m.isFinite = false) := by
  have hdigits : ∀ c ∈ m.shortest.digits, c.isDigit = true := by
    intro c hc
    exact Decimal.isDigit_of_mem_digits hc
  unfold chars
  split
  · exact ⟨_, _, rfl, Or.inl rfl⟩
  · rename_i hzero
    have hne := shortest_digits_ne_nil (Bool.eq_false_iff.mpr hzero)
    split
    · rename_i hinfinite
      exact ⟨_, _, rfl, Or.inr ⟨rfl, Bool.not_eq_true' _ ▸ hinfinite⟩⟩
    · simp only
      split
      · obtain ⟨first, behind, hcons, hfirst⟩ := exists_full_eq_cons hdigits m.shortest.point hne
        exact ⟨first, behind, hcons, Or.inl hfirst⟩
      · obtain ⟨first, behind, hcons, hfirst⟩ :=
          exists_scientific_eq_cons hdigits m.shortest.point hne
        exact ⟨first, behind, hcons, Or.inl hfirst⟩

/-- The text of a finite magnitude is a decimal that is read as that magnitude. -/
theorem exists_readDecimal_chars {m : Magnitude} (hzero : m.isZero = false)
    (hfinite : m.isFinite = true) :
    ∃ d, Literal.readDecimal m.chars = some d ∧ d.toMagnitude = m := by
  have hdigits : ∀ c ∈ m.shortest.digits, c.isDigit = true := by
    intro c hc
    exact Decimal.isDigit_of_mem_digits hc
  have hne := shortest_digits_ne_nil hzero
  have hread : ∀ d : Decimal, d.worth = Nat.ofDigitChars 10 m.shortest.digits 0 *
      10 ^ (m.shortest.point - m.shortest.digits.length) → d.toMagnitude = m := by
    intro d hd
    rw [← Decimal.worth_eq_digits] at hd
    rw [Decimal.toMagnitude_congr hd, toMagnitude_shortest]
  simp only [chars, hzero, hfinite, Bool.false_eq_true, Bool.not_true, if_false]
  split
  · obtain ⟨d, hd, hworth⟩ :=
      Literal.exists_readDecimal_full hdigits hne m.shortest.point
    exact ⟨d, hd, hread d hworth⟩
  · obtain ⟨d, hd, hworth⟩ :=
      Literal.exists_readDecimal_scientific hdigits hne m.shortest.point
    exact ⟨d, hd, hread d hworth⟩

/-- **The text of a magnitude is read as that magnitude.** -/
theorem readMagnitude_chars (m : Magnitude) : Literal.readMagnitude m.chars = some m := by
  by_cases hfinite : m.isFinite = true
  · by_cases hzero : m.isZero = true
    · rw [isZero_iff_eq_zero.mp hzero]
      decide +kernel
    · obtain ⟨first, behind, hcons, hfirst⟩ := m.exists_chars_eq_cons
      obtain ⟨d, hd, hread⟩ := exists_readDecimal_chars (Bool.eq_false_iff.mpr hzero) hfinite
      have hdigit : first.isDigit = true := by
        rcases hfirst with hdigit | ⟨_, hinfinite⟩
        · exact hdigit
        · rw [hfinite] at hinfinite
          cases hinfinite
      have hname : m.chars ≠ "Infinity".toList := by
        rw [hcons]
        intro h
        have hI : first = 'I' := (List.cons.inj h).1
        rw [hI] at hdigit
        exact absurd hdigit (by decide)
      rw [Literal.readMagnitude, if_neg hname, hd, Option.map_some, hread]
  · rw [Bool.not_eq_true, isFinite_eq_false_iff] at hfinite
    rw [hfinite]
    decide +kernel

end Magnitude

/-! ### Numbers -/

namespace Literal

open Layout

theorem radix?_eq_none {cs : List Char} (h : ∀ c ∈ cs, isNumeral c = true) :
    radix? cs = none := by
  apply radix?_of_forall
  intro c hc
  have hne : ∀ d, isNumeral d = false → c ≠ d := fun d hd => isNumeral_ne (h c hc) hd
  simp [radixOfMark?, hne 'x' rfl, hne 'X' rfl, hne 'o' rfl, hne 'O' rfl, hne 'b' rfl,
    hne 'B' rfl]

theorem isMargin_of_isNumeral {c : Char} (hc : isNumeral c = true) : isMargin c = false := by
  rw [isMargin, isBlank_of_isNumeral hc, Bool.false_or, beq_eq_false_iff_ne]
  exact isNumeral_ne hc rfl

end Literal

namespace Number

open Layout

theorem chars_negative (m : Magnitude) : (signed true m).chars = '-' :: m.chars := by
  rw [chars, if_pos rfl]

theorem chars_positive (m : Magnitude) : (signed false m).chars = m.chars := by
  rw [chars, if_neg Bool.false_ne_true]

theorem isNumeral_of_mem_chars {x : Number} (hx : x ≠ .nan) :
    ∀ c ∈ x.chars, isNumeral c = true := by
  rcases x with _ | ⟨_ | _, m⟩
  · exact absurd rfl hx
  · rw [chars_positive]
    exact m.isNumeral_of_mem_chars
  · rw [chars_negative]
    intro c hc
    rcases List.mem_cons.mp hc with rfl | hc
    · rfl
    · exact m.isNumeral_of_mem_chars c hc

theorem cutSign_chars (m : Magnitude) : Literal.cutSign m.chars = (false, m.chars) := by
  obtain ⟨first, behind, hcons, hfirst⟩ := m.exists_chars_eq_cons
  have hminus : first ≠ '-' := by
    rcases hfirst with hdigit | ⟨rfl, _⟩
    · exact Literal.isDigit_ne hdigit rfl
    · decide
  have hplus : first ≠ '+' := by
    rcases hfirst with hdigit | ⟨rfl, _⟩
    · exact Literal.isDigit_ne hdigit rfl
    · decide
  rw [hcons]
  unfold Literal.cutSign
  split
  · rename_i heq
    exact absurd (List.cons.inj heq).1 hminus
  · rename_i heq
    exact absurd (List.cons.inj heq).1 hplus
  · rfl

theorem chars_ne_nil (m : Magnitude) : m.chars ≠ [] := by
  obtain ⟨first, behind, hcons, _⟩ := m.exists_chars_eq_cons
  rw [hcons]
  exact List.cons_ne_nil _ _

/-- **A number is read back from its text, sign and all.** -/
theorem read?_text {x : Number} (hx : x ≠ .nan) : read? x.text = some x := by
  have hnumeral := isNumeral_of_mem_chars hx
  have hmargin := fun c hc => Literal.isMargin_of_isNumeral (hnumeral c hc)
  rw [read?, text, String.toList_ofList, Literal.readChars, Text.trim_eq_self hmargin,
    Literal.readTrimmed, Literal.radix?_eq_none hnumeral]
  rcases x with _ | ⟨_ | _, m⟩
  · exact absurd rfl hx
  · rw [chars_positive, cutSign_chars, if_neg (by simp [chars_ne_nil])]
    simp only [m.readMagnitude_chars, Option.map_some]
  · rw [chars_negative, if_neg (by simp)]
    simp only [Literal.cutSign, m.readMagnitude_chars, Option.map_some]

/-! ### Bit patterns -/

/-- A bit pattern of a number is the pattern of the number that it stands for. -/
theorem toBits_ofBits {bits : Nat} (hbits : bits < 2 ^ 64) (hnumber : ofBits bits ≠ .nan) :
    (ofBits bits).toBits = bits := by
  have hsplit := Nat.div_add_mod bits signBit
  by_cases hrank : bits % signBit ≤ topRank
  · have hlt : bits / signBit < 2 := Nat.div_lt_of_lt_mul hbits
    have hsign := Nat.le_one_iff_eq_zero_or_eq_one.mp (Nat.le_of_lt_succ hlt)
    simp only [ofBits, dif_pos hrank, toBits]
    rcases hsign with hsign | hsign
    · rw [hsign, Nat.mul_zero] at hsplit
      rw [hsign, if_neg (by decide)]
      exact hsplit
    · rw [hsign, Nat.mul_one] at hsplit
      rw [hsign, if_pos (by decide)]
      exact hsplit
  · simp only [ofBits, dif_neg hrank] at hnumber
    exact absurd rfl hnumber

end Number

/-! ### Values -/

namespace Value

theorem read?_text_eq_none {v : Value} (hv : ∀ x, v = .number x → x = .nan) :
    Number.read? v.text = none := by
  cases v with
  | number x =>
    rw [hv x rfl]
    decide +kernel
  | truth b => cases b <;> decide +kernel

theorem text_injective : Function.Injective text := by
  intro v w h
  have hread := congrArg Number.read? h
  by_cases hv : ∀ x, v = .number x → x = .nan
  · by_cases hw : ∀ x, w = .number x → x = .nan
    · -- the three texts that are no literals differ from each other
      have hcases : ∀ u : Value, (∀ x, u = .number x → x = .nan) →
          u = .number .nan ∨ ∃ b, u = .truth b := by
        intro u hu
        cases u with
        | number x => exact Or.inl (by rw [hu x rfl])
        | truth b => exact Or.inr ⟨b, rfl⟩
      have hnan : ∀ b, (number .nan).text ≠ (truth b).text := by decide +kernel
      have htruth : ∀ b c, (truth b).text = (truth c).text → b = c := by decide
      rcases hcases v hv with rfl | ⟨b, rfl⟩
      · rcases hcases w hw with rfl | ⟨c, rfl⟩
        · rfl
        · exact absurd h (hnan c)
      · rcases hcases w hw with rfl | ⟨c, rfl⟩
        · exact absurd h.symm (hnan b)
        · rw [htruth b c h]
    · push Not at hw
      obtain ⟨y, rfl, hy⟩ := hw
      rw [read?_text_eq_none hv] at hread
      exact absurd (hread.trans (Number.read?_text hy)) (by simp)
  · push Not at hv
    obtain ⟨x, rfl, hx⟩ := hv
    have hsome : some x = Number.read? w.text := (Number.read?_text hx).symm.trans hread
    by_cases hw : ∀ y, w = .number y → y = .nan
    · rw [read?_text_eq_none hw] at hsome
      cases hsome
    · push Not at hw
      obtain ⟨y, rfl, hy⟩ := hw
      have : some x = some y := hsome.trans (Number.read?_text hy)
      rw [Option.some.inj this]

/-- **A text tells which value it is the text of.**  A number of any of the 2^64 bit
    patterns is read back from its text with the same bits.  The text of what is
    not a number and the texts of the truth values are no literals.  So different
    values have different texts, and so do different bit patterns, unless both
    stand for no number. -/
theorem text_tells_value :
    (∀ bits < 2 ^ 64, Number.ofBits bits ≠ .nan →
      ∃ x, Number.read? (number (.ofBits bits)).text = some x ∧ x.toBits = bits) ∧
    Number.read? (number .nan).text = none ∧
    (∀ b, Number.read? (truth b).text = none) ∧
    (∀ v w : Value, v.text = w.text → v = w) ∧
    (∀ a < 2 ^ 64, ∀ b < 2 ^ 64,
      (number (.ofBits a)).text = (number (.ofBits b)).text →
        a = b ∨ Number.ofBits a = .nan ∧ Number.ofBits b = .nan) := by
  refine ⟨?_, ?_, ?_, ?_, ?_⟩
  · intro bits hbits hnumber
    exact ⟨.ofBits bits, Number.read?_text hnumber, Number.toBits_ofBits hbits hnumber⟩
  · exact read?_text_eq_none fun x hx => (Value.number.inj hx).symm
  · intro b
    exact read?_text_eq_none fun x hx => by cases hx
  · intro v w h
    exact text_injective h
  · intro a ha b hb h
    have hsame : Number.ofBits a = .ofBits b := Value.number.inj (text_injective h)
    by_cases hnan : Number.ofBits a = .nan
    · exact Or.inr ⟨hnan, hsame ▸ hnan⟩
    · refine Or.inl ?_
      calc a = (Number.ofBits a).toBits := (Number.toBits_ofBits ha hnan).symm
        _ = (Number.ofBits b).toBits := by rw [hsame]
        _ = b := Number.toBits_ofBits hb (hsame ▸ hnan)

/-- Negative zero and the smallest number below it come back with their bits, and
    a text that two patterns share comes from one of them. -/
theorem text_tells_value_negative :
    (∃ x, Number.read? (number (.ofBits (2 ^ 63))).text = some x ∧ x.toBits = 2 ^ 63) ∧
    (∃ x, Number.read? (number (.ofBits (2 ^ 63 + 1))).text = some x ∧
      x.toBits = 2 ^ 63 + 1) ∧
    (number (.ofBits (2 ^ 63))).text ≠ (number (.ofBits 0)).text := by
  refine ⟨text_tells_value.1 (2 ^ 63) (by decide) (by decide),
    text_tells_value.1 (2 ^ 63 + 1) (by decide) (by decide), fun h => ?_⟩
  rcases text_tells_value.2.2.2.2 (2 ^ 63) (by decide) 0 (by decide) h with hbits | hnan
  · exact absurd hbits (by decide)
  · exact absurd hnan.2 (by decide)

end Value

end DequeMachine

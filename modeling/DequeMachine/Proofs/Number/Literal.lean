/-
  DequeMachine/Proofs/Number/Literal.lean
  =======================================
  **Decimals are rounded correctly, however they are written.**

  The ways to write a decimal are a type of their own (`Literal.Spelling`): perhaps a
  sign, digits with perhaps a point among them, perhaps a power of ten with a sign of its
  own, and as many digits everywhere as one likes.  A spelling has its characters, and it
  has its worth, a rational number that is told from the parts and not from the
  characters.

  The reader goes through the characters of a spelling part by part and comes to a
  decimal of the same worth (`exists_readDecimal_spelling`), and it takes no other
  characters (`isSome_readDecimal_iff`).  What is read is therefore the magnitude nearest to
  that worth, under the sign that was written (`read?_spelling`).
-/
import DequeMachine.Proofs.Number.Layout
import DequeMachine.Proofs.Number.Nearest

namespace DequeMachine

namespace Literal

/-! ### Spellings -/

inductive Sign where
  | none
  | plus
  | minus
deriving DecidableEq, Repr

namespace Sign

def chars : Sign → List Char
  | none => []
  | plus => ['+']
  | minus => ['-']

def isNegative : Sign → Bool
  | minus => true
  | _ => false

end Sign

/-- A row of decimal digits. -/
structure Digits where
  chars : List Char
  isDigit : ∀ c ∈ chars, c.isDigit = true

namespace Digits

def value (d : Digits) : Nat := Nat.ofDigitChars 10 d.chars 0

def fractionWorth (d : Digits) : ℚ := d.value / 10 ^ d.chars.length

end Digits

structure Power where
  /-- Whether it is marked by a capital letter. -/
  capital : Bool
  sign : Sign
  digits : Digits
  digits_ne_nil : digits.chars ≠ []

namespace Power

def mark (p : Power) : Char := if p.capital then 'E' else 'e'

theorem mark_eq (p : Power) : p.mark = 'e' ∨ p.mark = 'E' := by
  unfold mark
  cases p.capital
  · exact .inl rfl
  · exact .inr rfl

def chars (p : Power) : List Char := p.mark :: (p.sign.chars ++ p.digits.chars)

def value (p : Power) : Int := if p.sign.isNegative then -p.digits.value else p.digits.value

end Power

/-- A decimal as it is written.  There is at least one digit before the point or behind
    it. -/
structure Spelling where
  sign : Sign
  whole : Digits
  /-- What stands behind the point, if there is a point. -/
  fraction : Option Digits
  power : Option Power
  ne_nil : whole.chars ++ fraction.elim [] Digits.chars ≠ []

namespace Spelling

def mantissa (s : Spelling) : List Char :=
  s.whole.chars ++ s.fraction.elim [] fun f => '.' :: f.chars

def unsigned (s : Spelling) : List Char := s.mantissa ++ s.power.elim [] Power.chars

def chars (s : Spelling) : List Char := s.sign.chars ++ s.unsigned

/-- The rational number that is written, without its sign. -/
def worth (s : Spelling) : ℚ :=
  (s.whole.value + s.fraction.elim 0 Digits.fractionWorth) * 10 ^ s.power.elim 0 Power.value

def fractionChars (s : Spelling) : List Char := s.fraction.elim [] Digits.chars

/-- The decimal that is spelt: all digits in a row, and the point accounted for by the power. -/
def decimal (s : Spelling) : Decimal :=
  ⟨Nat.ofDigitChars 10 (s.whole.chars ++ s.fractionChars) 0,
    s.power.elim 0 Power.value - s.fractionChars.length⟩

theorem worth_decimal (s : Spelling) : s.decimal.worth = s.worth := by
  have hten : (10 : ℚ) ≠ 0 := by norm_num
  unfold decimal worth Decimal.worth fractionChars
  cases s.fraction with
  | none => simp [Digits.value]
  | some f =>
    rw [Option.elim_some, Option.elim_some, zpow_sub₀ hten, zpow_natCast, Nat.ofDigitChars_append,
      Nat.ofDigitChars_eq_ofDigitChars_zero, Digits.fractionWorth, Digits.value, Digits.value]
    push_cast
    field_simp

end Spelling

/-! ### Reading the parts -/

theorem cutSign_eq_self {cs : List Char} (h : ∀ c ∈ cs.head?, c ≠ '-' ∧ c ≠ '+') :
    cutSign cs = (false, cs) := by
  unfold cutSign
  split
  · exact absurd rfl (h '-' rfl).1
  · exact absurd rfl (h '+' rfl).2
  · rfl

theorem cutSign_sign (sign : Sign) {cs : List Char} (h : ∀ c ∈ cs.head?, c ≠ '-' ∧ c ≠ '+') :
    cutSign (sign.chars ++ cs) = (sign.isNegative, cs) := by
  cases sign with
  | none => exact cutSign_eq_self h
  | plus => rfl
  | minus => rfl

theorem isDigit_ne_signs {c : Char} (hc : c.isDigit = true) : c ≠ '-' ∧ c ≠ '+' :=
  ⟨isDigit_ne hc rfl, isDigit_ne hc rfl⟩

theorem readExponent_power (p : Power) :
    readExponent (p.sign.chars ++ p.digits.chars) = some p.value := by
  have hcut : cutSign (p.sign.chars ++ p.digits.chars) = (p.sign.isNegative, p.digits.chars) := by
    apply cutSign_sign
    intro c hc
    exact isDigit_ne_signs (p.digits.isDigit c (List.mem_of_head? hc))
  have hall : allDigits p.digits.chars = true := List.all_eq_true.mpr p.digits.isDigit
  simp only [readExponent, hcut, hall, List.isEmpty_eq_false_iff.mpr p.digits_ne_nil]
  rfl

theorem readDecimal_mantissa (s : Spelling) :
    readDecimal s.mantissa =
      some ⟨Nat.ofDigitChars 10 (s.whole.chars ++ s.fractionChars) 0, -s.fractionChars.length⟩ := by
  have hne := s.ne_nil
  unfold Spelling.mantissa Spelling.fractionChars
  cases hfraction : s.fraction with
  | none =>
    rw [hfraction, Option.elim_none, List.append_nil] at hne
    rw [Option.elim_none, Option.elim_none, List.append_nil, readDecimal_whole s.whole.isDigit hne]
    rfl
  | some f =>
    rw [hfraction, Option.elim_some] at hne
    exact readDecimal_point s.whole.isDigit f.isDigit hne

theorem notMem_mantissa (s : Spelling) {c : Char} (hdigit : c.isDigit = false) (hpoint : c ≠ '.') :
    c ∉ s.mantissa := by
  unfold Spelling.mantissa
  intro hc
  rcases List.mem_append.mp hc with hc | hc
  · exact isDigit_ne (s.whole.isDigit c hc) hdigit rfl
  · cases hfraction : s.fraction with
    | none =>
      rw [hfraction] at hc
      cases hc
    | some f =>
      rw [hfraction] at hc
      rcases List.mem_cons.mp hc with hc | hc
      · exact hpoint hc
      · exact isDigit_ne (f.isDigit c hc) hdigit rfl

theorem readDecimal_unsigned (s : Spelling) : readDecimal s.unsigned = some s.decimal := by
  have hmantissa := readDecimal_mantissa s
  unfold Spelling.unsigned Spelling.decimal
  cases s.power with
  | none =>
    rw [Option.elim_none, List.append_nil, hmantissa, Option.elim_none, zero_sub]
  | some p =>
    have hnoMark : ∀ c ∈ s.mantissa, c ≠ 'e' ∧ c ≠ 'E' := by
      intro c hc
      constructor
      · rintro rfl
        exact notMem_mantissa s rfl (by decide) hc
      · rintro rfl
        exact notMem_mantissa s rfl (by decide) hc
    rw [Option.elim_some, Option.elim_some, Power.chars,
      readDecimal_power hnoMark p.mark_eq hmantissa (readExponent_power p), sub_eq_add_neg]

/-- **A spelling is read at its worth.** -/
theorem exists_readDecimal_spelling (s : Spelling) :
    ∃ d, readDecimal s.unsigned = some d ∧ d.worth = s.worth :=
  ⟨s.decimal, readDecimal_unsigned s, s.worth_decimal⟩

/-! ### Nothing else is read -/

theorem exists_sign_append (cs : List Char) : ∃ sign : Sign, sign.chars ++ (cutSign cs).2 = cs := by
  unfold cutSign
  split
  · exact ⟨.minus, rfl⟩
  · exact ⟨.plus, rfl⟩
  · exact ⟨.none, rfl⟩

theorem exists_power_of_readExponent {mark : Char} (hmark : mark = 'e' ∨ mark = 'E')
    {cs : List Char} {e : Int} (h : readExponent cs = some e) :
    ∃ p : Power, p.chars = mark :: cs := by
  obtain ⟨sign, hsign⟩ := exists_sign_append cs
  unfold readExponent at h
  generalize cutSign cs = cut at h hsign
  obtain ⟨negative, digits⟩ := cut
  simp only [Option.ite_none_left_eq_some, Bool.or_eq_true, List.isEmpty_iff, Bool.not_eq_true',
    not_or, Bool.not_eq_false, allDigits, List.all_eq_true] at h
  obtain ⟨⟨hne, hdigits⟩, -⟩ := h
  refine ⟨⟨decide (mark = 'E'), sign, ⟨digits, hdigits⟩, hne⟩, ?_⟩
  rcases hmark with rfl | rfl
  · exact congrArg ('e' :: ·) hsign
  · exact congrArg ('E' :: ·) hsign

/-- **What can be read is a spelling.** -/
theorem exists_spelling_of_readDecimal {cs : List Char} {d : Decimal} (h : readDecimal cs = some d)
    (sign : Sign) : ∃ s : Spelling, s.sign = sign ∧ s.unsigned = cs := by
  unfold readDecimal at h
  split at h
  rename_i mantissa power hpower
  split at h
  rename_i whole fraction hpoint
  simp only [Option.ite_none_left_eq_some, Bool.or_eq_true, List.isEmpty_iff, Bool.not_eq_true',
    not_or, Bool.not_eq_false, allDigits, List.all_eq_true, Option.map_eq_some_iff] at h
  obtain ⟨⟨hne, hdigits⟩, e, he, -⟩ := h
  have hwhole : ∀ c ∈ whole, c.isDigit = true := fun c hc => hdigits c (List.mem_append_left _ hc)
  obtain ⟨s, hs, hsign, hnone⟩ :
      ∃ s : Spelling, s.mantissa = mantissa ∧ s.sign = sign ∧ s.power = none := by
    rcases Text.eq_of_cutAt hpoint with ⟨rfl, rfl⟩ | ⟨point, behind, rfl, hkind, rfl⟩
    · refine ⟨⟨sign, ⟨mantissa, hwhole⟩, none, none, ?_⟩, List.append_nil _, rfl, rfl⟩
      exact hne
    · have hbehind : ∀ c ∈ behind, c.isDigit = true :=
        fun c hc => hdigits c (List.mem_append_right _ hc)
      refine ⟨⟨sign, ⟨whole, hwhole⟩, some ⟨behind, hbehind⟩, none, hne⟩, ?_, rfl, rfl⟩
      rw [beq_iff_eq.mp hkind]
      rfl
  rcases Text.eq_of_cutAt hpower with ⟨rfl, rfl⟩ | ⟨mark, behind, rfl, hkind, rfl⟩
  · refine ⟨s, hsign, ?_⟩
    rw [Spelling.unsigned, hnone, hs]
    exact List.append_nil _
  · have hmark : mark = 'e' ∨ mark = 'E' := by simpa using hkind
    obtain ⟨p, hp⟩ := exists_power_of_readExponent hmark he
    refine ⟨{ s with power := some p }, hsign, ?_⟩
    rw [← hp, ← hs]
    rfl

theorem isSome_readDecimal_iff {cs : List Char} :
    (readDecimal cs).isSome = true ↔ ∃ s : Spelling, s.unsigned = cs := by
  constructor
  · intro h
    obtain ⟨d, hd⟩ := Option.isSome_iff_exists.mp h
    obtain ⟨s, -, hs⟩ := exists_spelling_of_readDecimal hd .none
    exact ⟨s, hs⟩
  · rintro ⟨s, rfl⟩
    obtain ⟨d, hd, -⟩ := exists_readDecimal_spelling s
    rw [hd, Option.isSome_some]

/-! ### Reading the whole -/

theorem exists_unsigned_eq_cons (s : Spelling) :
    ∃ first behind, s.unsigned = first :: behind ∧ (first.isDigit = true ∨ first = '.') := by
  unfold Spelling.unsigned Spelling.mantissa
  cases hwhole : s.whole.chars with
  | cons first behind =>
    exact ⟨first, _, rfl, .inl (s.whole.isDigit first (by simp [hwhole]))⟩
  | nil =>
    cases hfraction : s.fraction with
    | some f => exact ⟨'.', _, rfl, .inr rfl⟩
    | none =>
      have hne := s.ne_nil
      rw [hwhole, hfraction] at hne
      exact absurd rfl hne

theorem radixOfMark?_of_isDigit {c : Char} (hc : c.isDigit = true) : radixOfMark? c = none := by
  have hne : ∀ d : Char, d.isDigit = false → c ≠ d := fun d hd => isDigit_ne hc hd
  simp [radixOfMark?, hne 'x' rfl, hne 'X' rfl, hne 'o' rfl, hne 'O' rfl, hne 'b' rfl, hne 'B' rfl]

theorem radix?_spelling (s : Spelling) : radix? s.chars = none := by
  have hsign : ∀ sign : Sign, ∀ c ∈ sign.chars, radixOfMark? c = none := by
    intro sign
    cases sign with
    | none => exact List.forall_mem_nil _
    | plus => exact List.forall_mem_singleton.mpr rfl
    | minus => exact List.forall_mem_singleton.mpr rfl
  have hdigits : ∀ d : Digits, ∀ c ∈ d.chars, radixOfMark? c = none := by
    intro d c hc
    exact radixOfMark?_of_isDigit (d.isDigit c hc)
  apply radix?_of_forall
  intro c hc
  simp only [Spelling.chars, Spelling.unsigned, Spelling.mantissa, List.mem_append] at hc
  rcases hc with hc | (hc | hc) | hc
  · exact hsign _ c hc
  · exact hdigits _ c hc
  · cases hfraction : s.fraction with
    | none =>
      rw [hfraction] at hc
      cases hc
    | some f =>
      rw [hfraction] at hc
      rcases List.mem_cons.mp hc with rfl | hc
      · rfl
      · exact hdigits _ c hc
  · cases hpower : s.power with
    | none =>
      rw [hpower] at hc
      cases hc
    | some p =>
      rw [hpower] at hc
      rcases List.mem_cons.mp hc with rfl | hc
      · unfold Power.mark
        cases p.capital <;> rfl
      · rcases List.mem_append.mp hc with hc | hc
        · exact hsign _ c hc
        · exact hdigits _ c hc

theorem readMagnitude_spelling (s : Spelling) :
    ∃ m : Magnitude, readMagnitude s.unsigned = some m ∧ m.IsNearest s.worth := by
  obtain ⟨d, hd, hworth⟩ := exists_readDecimal_spelling s
  obtain ⟨first, behind, hcons, hfirst⟩ := exists_unsigned_eq_cons s
  have hname : s.unsigned ≠ "Infinity".toList := by
    rw [hcons]
    intro h
    have hI : first = 'I' := (List.cons.inj h).1
    rw [hI] at hfirst
    exact absurd hfirst (by decide)
  refine ⟨d.toMagnitude, ?_, hworth ▸ d.isNearest_toMagnitude⟩
  rw [readMagnitude, if_neg hname, hd, Option.map_some]

end Literal

namespace Number

open Literal

/-- **A decimal is read as the number nearest to it.**  Whatever its digits and its power of
    ten are, the magnitude that is read is the one that is nearest to what is written, and the sign
    is the one that is written.  From half way between the largest finite magnitude and 2^1024
    on that is infinity, and up to half of the smallest magnitude it is zero, which
    keeps the sign as well. -/
theorem read?_spelling {text : String} {s : Spelling}
    (h : Text.trim isMargin text.toList = s.chars) :
    ∃ m : Magnitude, read? text = some (.signed s.sign.isNegative m) ∧ m.IsNearest s.worth ∧
      (2 ^ 1024 - 2 ^ 970 ≤ s.worth → m = .infinity) ∧
      (s.worth ≤ 2 ^ (-1075 : Int) → m = .zero) := by
  obtain ⟨m, hm, hnearest⟩ := readMagnitude_spelling s
  refine ⟨m, ?_, hnearest, ?_, ?_⟩
  · obtain ⟨first, behind, hcons, hfirst⟩ := exists_unsigned_eq_cons s
    have hcut : cutSign s.chars = (s.sign.isNegative, s.unsigned) := by
      apply cutSign_sign
      rw [hcons]
      rintro c ⟨⟩
      rcases hfirst with hdigit | rfl
      · exact isDigit_ne_signs hdigit
      · decide
    have hne : s.chars.isEmpty = false := by
      rw [Spelling.chars, hcons]
      simp
    rw [read?, readChars, h, readTrimmed, radix?_spelling, hne]
    simp only [hcut, hm, Option.map_some, Bool.false_eq_true, if_false]
  · intro hlarge
    exact hnearest.unique (Magnitude.isNearest_infinity hlarge)
  · intro hsmall
    exact hnearest.unique (Magnitude.isNearest_zero hsmall)

/-- A decimal beneath all magnitudes is zero under its own sign. -/
theorem read?_spelling_underflow :
    Text.trim isMargin "\t-.1E-400 ".toList = "-.1E-400".toList ∧
      read? "\t-.1E-400 " = some (.signed true .zero) := by
  let tenth : Digits := ⟨['1'], List.all_eq_true.mp rfl⟩
  let power : Power := ⟨true, .minus, ⟨['4', '0', '0'], List.all_eq_true.mp rfl⟩, by decide⟩
  let spelling : Spelling :=
    ⟨.minus, ⟨[], List.forall_mem_nil _⟩, some tenth, some power, by decide⟩
  have h : Text.trim isMargin "\t-.1E-400 ".toList = spelling.chars := by decide
  have hworth : spelling.worth = ((0 : ℕ) + (1 : ℕ) / 10 ^ 1) * 10 ^ (-400 : Int) := rfl
  have hsmall : spelling.worth ≤ 2 ^ (-1075 : Int) := by
    have hle : (2 : ℚ) ^ 1075 ≤ 10 ^ 400 :=
      calc (2 : ℚ) ^ 1075 ≤ 2 ^ (3 * 400) := pow_le_pow_right₀ one_le_two (by decide)
        _ = (2 ^ 3) ^ 400 := pow_mul 2 3 400
        _ ≤ 10 ^ 400 := pow_le_pow_left₀ (by norm_num) (by norm_num) 400
    calc spelling.worth ≤ 1 * 10 ^ (-400 : Int) :=
          hworth ▸ mul_le_mul_of_nonneg_right (by norm_num) (zpow_nonneg (by norm_num) _)
      _ = (10 ^ 400 : ℚ)⁻¹ := by rw [one_mul, zpow_neg, zpow_ofNat]
      _ ≤ (2 ^ 1075 : ℚ)⁻¹ := inv_anti₀ (pow_pos two_pos _) hle
      _ = 2 ^ (-1075 : Int) := by rw [zpow_neg, zpow_ofNat]
  obtain ⟨m, hm, -, -, hzero⟩ := read?_spelling h
  exact ⟨h, hzero hsmall ▸ hm⟩

end Number

end DequeMachine

/-
  DequeMachine/Proofs/Number/Grammar.lean
  =======================================
  **Which texts are literals.**

  A literal is blank, a radix literal, infinity by its name or a decimal (`IsLiteral`), the
  radix literals and the decimals being the types of all ways to write them.

  The reader takes these and nothing else (`isSome_readTrimmed_iff`).  It could also work in
  two stages, asking whether there is a decimal and leaving what it is worth to a reader of
  numbers in general.  That one scans a decimal from left to right, where the other cuts it
  into parts; on a spelling both come to the same decimal (`scanDecimal_unsigned`,
  `readDecimal_unsigned`), and so the second stage never refuses what the first lets through
  (`readInStages_eq`).
-/
import DequeMachine.Proofs.Number.Literal
import DequeMachine.Proofs.Number.Prefixed

namespace DequeMachine

namespace Literal

/-! ### Decimals in two stages

The reader tells what is a decimal and what it is worth in one go.  The same can be done in
two stages, by looking first whether a text is a decimal and then giving it, sign and all, to
a reader of numbers that knows more than decimals and takes the text in from left to
right. -/

/-- Is this a decimal without a sign? -/
def isDecimal (cs : List Char) : Bool :=
  let (mantissa, power) := Text.cutAt (fun c => c == 'e' || c == 'E') cs
  let (whole, fraction) := Text.cutAt (· == '.') mantissa
  allDigits whole && allDigits (fraction.getD []) &&
    !(whole.isEmpty && (fraction.getD []).isEmpty) &&
    match power with
    | none => true
    | some p => !(cutSign p).2.isEmpty && allDigits (cutSign p).2

def scanExponent : List Char → Option Int
  | [] => some 0
  | mark :: rest => if mark = 'e' ∨ mark = 'E' then readExponent rest else none

/-- A point with the digits behind it, if there is one, and what comes then. -/
def scanFraction : List Char → List Char × List Char
  | '.' :: rest => (rest.takeWhile Char.isDigit, rest.dropWhile Char.isDigit)
  | cs => ([], cs)

/-- Digits as far as they go, a point and again digits, and an exponent up to the end. -/
def scanDecimal (cs : List Char) : Option Decimal :=
  let whole := cs.takeWhile Char.isDigit
  let (fraction, rest) := scanFraction (cs.dropWhile Char.isDigit)
  if (whole ++ fraction).isEmpty then none
  else (scanExponent rest).map fun e =>
    ⟨Nat.ofDigitChars 10 (whole ++ fraction) 0, e - fraction.length⟩

/-- A number as the general reader knows it: besides decimals these are names of infinity and
    of what is not a number, in letters of any size. -/
def readFloat (cs : List Char) : Option Number :=
  let (negative, rest) := cutSign cs
  match scanDecimal rest with
  | some d => some (.signed negative d.toMagnitude)
  | none =>
    let name := rest.map Char.toLower
    if name = "inf".toList ∨ name = "infinity".toList then some (.signed negative .infinity)
    else if name = "nan".toList then some .nan
    else none

/-- A literal without anything around it, read in two stages. -/
def readInStages (cs : List Char) : Option Number :=
  if cs.isEmpty then some .zero
  else
    match radix? cs with
    | some (radix, digits) => readRadix radix digits
    | none =>
      let (negative, rest) := cutSign cs
      if rest = "Infinity".toList then some (.signed negative .infinity)
      else if isDecimal rest then readFloat cs
      else none

theorem isSome_readExponent (cs : List Char) :
    (readExponent cs).isSome = (!(cutSign cs).2.isEmpty && allDigits (cutSign cs).2) := by
  unfold readExponent
  generalize cutSign cs = cut
  obtain ⟨negative, digits⟩ := cut
  show (if (digits.isEmpty || !allDigits digits) = true then _ else _ : Option Int).isSome =
    (!digits.isEmpty && allDigits digits)
  cases digits.isEmpty <;> cases allDigits digits <;> rfl

theorem isDecimal_eq (cs : List Char) : isDecimal cs = (readDecimal cs).isSome := by
  unfold isDecimal readDecimal
  generalize Text.cutAt (fun c => c == 'e' || c == 'E') cs = cut
  obtain ⟨mantissa, power⟩ := cut
  dsimp only
  generalize Text.cutAt (· == '.') mantissa = cut
  obtain ⟨whole, fraction⟩ := cut
  dsimp only
  have hall : allDigits (whole ++ fraction.getD []) =
      (allDigits whole && allDigits (fraction.getD [])) := List.all_append
  have hempty : (whole ++ fraction.getD []).isEmpty =
      (whole.isEmpty && (fraction.getD []).isEmpty) := by
    cases whole <;> simp
  simp only [hall, hempty]
  cases whole.isEmpty && (fraction.getD []).isEmpty <;>
    cases allDigits whole && allDigits (fraction.getD []) <;>
      cases power <;> simp [← isSome_readExponent]

theorem takeWhile_isDigit_append (d : Digits) {cs : List Char}
    (h : ∀ c ∈ cs.head?, c.isDigit = false) :
    (d.chars ++ cs).takeWhile Char.isDigit = d.chars ∧
      (d.chars ++ cs).dropWhile Char.isDigit = cs := by
  have htail : cs.takeWhile Char.isDigit = [] ∧ cs.dropWhile Char.isDigit = cs := by
    cases cs with
    | nil => exact ⟨rfl, rfl⟩
    | cons c rest =>
      have hc : ¬c.isDigit = true := Bool.eq_false_iff.mp (h c rfl)
      exact ⟨List.takeWhile_cons_of_neg hc, List.dropWhile_cons_of_neg hc⟩
  rw [List.takeWhile_append_of_pos d.isDigit, List.dropWhile_append_of_pos d.isDigit, htail.1,
    htail.2, List.append_nil]
  exact ⟨rfl, rfl⟩

theorem scanExponent_power (power : Option Power) :
    scanExponent (power.elim [] Power.chars) = some (power.elim 0 Power.value) := by
  cases power with
  | none => rfl
  | some p => exact (if_pos p.mark_eq).trans (readExponent_power p)

theorem scanFraction_eq_self {cs : List Char} (h : ∀ c ∈ cs.head?, c ≠ '.') :
    scanFraction cs = ([], cs) := by
  unfold scanFraction
  split
  · exact absurd rfl (h '.' rfl)
  · rfl

/-- **Taken in from left to right, a spelling is the same decimal.** -/
theorem scanDecimal_unsigned (s : Spelling) : scanDecimal s.unsigned = some s.decimal := by
  have hpower : ∀ c ∈ (s.power.elim [] Power.chars).head?, c.isDigit = false ∧ c ≠ '.' := by
    cases s.power with
    | none => exact fun c hc => absurd hc (Option.not_mem_none c)
    | some p =>
      rintro c ⟨⟩
      rcases p.mark_eq with hmark | hmark
      · rw [hmark]
        decide
      · rw [hmark]
        decide
  have hexponent := scanExponent_power s.power
  have hparts : s.unsigned.takeWhile Char.isDigit = s.whole.chars ∧
      scanFraction (s.unsigned.dropWhile Char.isDigit) =
        (s.fractionChars, s.power.elim [] Power.chars) := by
    unfold Spelling.unsigned Spelling.mantissa Spelling.fractionChars
    rw [List.append_assoc]
    cases s.fraction with
    | none =>
      obtain ⟨hwhole, hrest⟩ := takeWhile_isDigit_append s.whole fun c hc => (hpower c hc).1
      rw [Option.elim_none, List.nil_append, hwhole, hrest,
        scanFraction_eq_self fun c hc => (hpower c hc).2]
      exact ⟨rfl, rfl⟩
    | some f =>
      obtain ⟨hfraction, hrest⟩ := takeWhile_isDigit_append f fun c hc => (hpower c hc).1
      have hpoint : ∀ c ∈ ('.' :: f.chars ++ s.power.elim [] Power.chars).head?,
          c.isDigit = false := by
        rintro c ⟨⟩
        rfl
      obtain ⟨hwhole, hbehind⟩ := takeWhile_isDigit_append s.whole hpoint
      rw [Option.elim_some, hwhole, hbehind, List.cons_append, scanFraction, hfraction, hrest]
      exact ⟨rfl, rfl⟩
  have hne : (s.whole.chars ++ s.fractionChars).isEmpty = false :=
    List.isEmpty_eq_false_iff.mpr s.ne_nil
  rw [scanDecimal, hparts.1, hparts.2]
  dsimp only
  rw [hne, hexponent]
  rfl

theorem exists_spelling_of_isDecimal {cs : List Char} (h : isDecimal cs = true) :
    ∃ s : Spelling, s.unsigned = cs := by
  rwa [isDecimal_eq, isSome_readDecimal_iff] at h

/-- What is known to be a decimal is never refused by the general reader. -/
theorem readFloat_of_isDecimal {cs : List Char} (h : isDecimal (cutSign cs).2 = true) :
    readFloat cs = (readDecimal (cutSign cs).2).map
      fun d => .signed (cutSign cs).1 d.toMagnitude := by
  obtain ⟨s, hs⟩ := exists_spelling_of_isDecimal h
  rw [readFloat]
  dsimp only
  rw [← hs, scanDecimal_unsigned, readDecimal_unsigned]
  rfl

/-- **Reading in two stages is reading.** -/
theorem readInStages_eq (cs : List Char) : readInStages cs = readTrimmed cs := by
  unfold readInStages readTrimmed
  split
  · rfl
  · cases radix? cs with
    | some announced => rfl
    | none =>
      dsimp only
      rw [readMagnitude]
      by_cases hname : (cutSign cs).2 = "Infinity".toList
      · rw [if_pos hname, if_pos hname, Option.map_some]
      · rw [if_neg hname, if_neg hname, Option.map_map]
        by_cases hdecimal : isDecimal (cutSign cs).2 = true
        · rw [if_pos hdecimal, readFloat_of_isDecimal hdecimal]
          rfl
        · rw [if_neg hdecimal]
          have hnone : readDecimal (cutSign cs).2 = none := by
            rwa [isDecimal_eq, Option.isSome_iff_ne_none, not_not] at hdecimal
          rw [hnone, Option.map_none]

/-! ### The grammar -/

/-- A literal, without anything around it. -/
inductive IsLiteral : List Char → Prop
  | blank : IsLiteral []
  | radix (p : Prefixed) : IsLiteral p.chars
  | infinity (sign : Sign) : IsLiteral (sign.chars ++ "Infinity".toList)
  | decimal (s : Spelling) : IsLiteral s.chars

theorem cutSign_infinity (sign : Sign) :
    cutSign (sign.chars ++ "Infinity".toList) = (sign.isNegative, "Infinity".toList) := by
  cases sign <;> rfl

theorem cutSign_spelling (s : Spelling) : cutSign s.chars = (s.sign.isNegative, s.unsigned) := by
  obtain ⟨first, behind, hcons, hfirst⟩ := exists_unsigned_eq_cons s
  apply cutSign_sign
  rw [hcons]
  rintro c ⟨⟩
  rcases hfirst with hdigit | rfl
  · exact isDigit_ne_signs hdigit
  · decide

/-- **Exactly the literals are read.** -/
theorem isSome_readTrimmed_iff (cs : List Char) :
    (readTrimmed cs).isSome = true ↔ IsLiteral cs := by
  constructor
  · intro h
    unfold readTrimmed at h
    split at h
    case isTrue hempty =>
      rw [List.isEmpty_iff.mp hempty]
      exact .blank
    case isFalse =>
      split at h
      case h_1 base digits hradix =>
        obtain ⟨r, capital, rfl, rfl⟩ := exists_mark_of_radix? hradix
        obtain ⟨x, hx⟩ := Option.isSome_iff_exists.mp h
        obtain ⟨p, hp⟩ := exists_prefixed_of_readRadix capital hx
        rw [← hp]
        exact .radix p
      case h_2 =>
        obtain ⟨sign, hsign⟩ := exists_sign_append cs
        rw [Option.isSome_map, readMagnitude] at h
        split at h
        case isTrue hname =>
          rw [← hsign, hname]
          exact .infinity sign
        case isFalse =>
          rw [Option.isSome_map] at h
          obtain ⟨d, hd⟩ := Option.isSome_iff_exists.mp h
          obtain ⟨s, rfl, hs⟩ := exists_spelling_of_readDecimal hd sign
          rw [← hsign, ← hs]
          exact .decimal s
  · intro h
    cases h with
    | blank => rfl
    | radix p =>
      rw [readTrimmed, radix?_chars]
      dsimp only
      rw [readRadix_chars]
      rfl
    | infinity sign => cases sign <;> rfl
    | decimal s =>
      obtain ⟨first, behind, hcons, -⟩ := exists_unsigned_eq_cons s
      have hne : s.chars.isEmpty = false := by
        rw [Spelling.chars, hcons]
        simp
      rw [readTrimmed, radix?_spelling, hne, cutSign_spelling]
      obtain ⟨m, hm, -⟩ := readMagnitude_spelling s
      dsimp only
      rw [hm]
      rfl

/-! ### What is no literal -/

/-- The characters that literals are made of. -/
def isLiteralChar (c : Char) : Bool := c.isAlphanum || c == '.' || c == '+' || c == '-'

theorem toNat_lt_of_isLiteralChar {c : Char} (h : isLiteralChar c = true) : c.toNat < 128 := by
  have hrange : ∀ last : UInt32, c.val ≤ last → last.toNat < 128 → c.toNat < 128 := by
    intro last hle hlast
    exact lt_of_le_of_lt (UInt32.le_iff_toNat_le.mp hle) hlast
  have hkinds :
      (c.isUpper || c.isLower || c.isDigit || c == '.' || c == '+' || c == '-') = true := h
  simp only [Bool.or_eq_true, beq_iff_eq, or_assoc] at hkinds
  rcases hkinds with hupper | hlower | hdigit | rfl | rfl | rfl
  · exact hrange _ (of_decide_eq_true hupper).2 (by decide)
  · exact hrange _ (of_decide_eq_true (Bool.and_eq_true_iff.mp hlower).2) (by decide)
  · exact hrange _ (of_decide_eq_true (Bool.and_eq_true_iff.mp hdigit).2) (by decide)
  · decide
  · decide
  · decide

theorem isMargin_of_isLiteralChar {c : Char} (h : isLiteralChar c = true) : isMargin c = false := by
  have hall : isLiteralChar c = true → isMargin c = false :=
    Text.of_code_lt (toNat_lt_of_isLiteralChar h) (by decide)
  exact hall h

theorem isLiteralChar_of_isDigit {c : Char} (h : c.isDigit = true) : isLiteralChar c = true := by
  simp [isLiteralChar, Char.isAlphanum, h]

theorem Sign.isLiteralChar (sign : Sign) : ∀ c ∈ sign.chars, Literal.isLiteralChar c = true := by
  cases sign with
  | none => exact List.forall_mem_nil _
  | plus => exact List.forall_mem_singleton.mpr rfl
  | minus => exact List.forall_mem_singleton.mpr rfl

theorem Prefixed.isLiteralChar (p : Prefixed) : ∀ c ∈ p.chars, Literal.isLiteralChar c = true := by
  have hdigit : ∀ n < 16, ∀ capital,
      Literal.isLiteralChar (Radix.digitChar n capital) = true := by decide
  have hbase : p.radix.base ≤ 16 := by cases p.radix <;> decide
  intro c hc
  rcases List.mem_cons.mp hc with rfl | hc
  · rfl
  · rcases List.mem_cons.mp hc with rfl | hc
    · cases p.radix <;> cases p.capital <;> rfl
    · obtain ⟨d, -, rfl⟩ := List.mem_map.mp hc
      exact hdigit d.value (d.value.isLt.trans_le hbase) d.capital

theorem Power.isLiteralChar (p : Power) : ∀ c ∈ p.chars, Literal.isLiteralChar c = true := by
  intro c hc
  rcases List.mem_cons.mp hc with rfl | hc
  · rcases p.mark_eq with hmark | hmark <;> rw [hmark] <;> rfl
  · rcases List.mem_append.mp hc with hc | hc
    · exact p.sign.isLiteralChar c hc
    · exact isLiteralChar_of_isDigit (p.digits.isDigit c hc)

theorem Spelling.isLiteralChar (s : Spelling) : ∀ c ∈ s.chars, Literal.isLiteralChar c = true := by
  intro c hc
  simp only [Spelling.chars, Spelling.unsigned, Spelling.mantissa, List.mem_append] at hc
  rcases hc with hc | (hc | hc) | hc
  · exact s.sign.isLiteralChar c hc
  · exact isLiteralChar_of_isDigit (s.whole.isDigit c hc)
  · cases hfraction : s.fraction with
    | none =>
      rw [hfraction] at hc
      cases hc
    | some f =>
      rw [hfraction] at hc
      rcases List.mem_cons.mp hc with rfl | hc
      · rfl
      · exact isLiteralChar_of_isDigit (f.isDigit c hc)
  · cases hpower : s.power with
    | none =>
      rw [hpower] at hc
      cases hc
    | some p =>
      rw [hpower] at hc
      exact p.isLiteralChar c hc

theorem IsLiteral.isLiteralChar {cs : List Char} (h : IsLiteral cs) :
    ∀ c ∈ cs, Literal.isLiteralChar c = true := by
  cases h with
  | blank => exact List.forall_mem_nil _
  | radix p => exact p.isLiteralChar
  | infinity sign =>
    intro c hc
    rcases List.mem_append.mp hc with hc | hc
    · exact sign.isLiteralChar c hc
    · have hname : "Infinity".toList.all Literal.isLiteralChar = true := by decide
      exact List.all_eq_true.mp hname c hc
  | decimal s => exact s.isLiteralChar

/-- What a literal is behind its sign. -/
theorem IsLiteral.unsigned_cases {cs : List Char} (h : IsLiteral cs) :
    (cutSign cs).2 = [] ∨ (∃ p : Prefixed, cs = p.chars ∧ (cutSign cs).2 = p.chars) ∨
      (cutSign cs).2 = "Infinity".toList ∨ ∃ s : Spelling, (cutSign cs).2 = s.unsigned := by
  cases h with
  | blank => exact .inl rfl
  | radix p =>
    refine .inr (.inl ⟨p, rfl, ?_⟩)
    rw [cutSign_eq_self]
    rintro c ⟨⟩
    decide
  | infinity sign => exact .inr (.inr (.inl (by rw [cutSign_infinity])))
  | decimal s => exact .inr (.inr (.inr ⟨s, by rw [cutSign_spelling]⟩))

/-- A radix literal does not have a sign. -/
theorem not_isLiteral_signed_radix {sign : Sign} (hsign : sign ≠ .none) (p : Prefixed) :
    ¬IsLiteral (sign.chars ++ p.chars) := by
  intro h
  have hcut : cutSign (sign.chars ++ p.chars) = (sign.isNegative, p.chars) := by
    apply cutSign_sign
    rintro c ⟨⟩
    decide
  rcases h.unsigned_cases with hnil | ⟨q, hq, -⟩ | hname | ⟨s, hs⟩
  · rw [hcut] at hnil
    cases hnil
  · cases sign with
    | none => exact hsign rfl
    | plus => exact absurd (List.cons.inj hq).1 (by decide)
    | minus => exact absurd (List.cons.inj hq).1 (by decide)
  · rw [hcut] at hname
    exact absurd (List.cons.inj hname).1 (by decide)
  · rw [hcut] at hs
    have hradix := radix?_spelling { s with sign := .none }
    rw [Spelling.chars, Sign.chars, List.nil_append] at hradix
    have hunsigned : Spelling.unsigned { s with sign := .none } = p.chars := hs.symm
    rw [hunsigned, radix?_chars] at hradix
    cases hradix

theorem mem_of_toLower {c : Char} (h : c.toLower = 'i' ∨ c.toLower = 'n') :
    c ∈ ['i', 'I', 'n', 'N'] := by
  by_cases hascii : c.toNat < 128
  · have hall : c.toLower = 'i' ∨ c.toLower = 'n' → c ∈ ['i', 'I', 'n', 'N'] :=
      Text.of_code_lt hascii (by decide)
    exact hall h
  · have hself : c.toLower = c := by
      unfold Char.toLower
      split
      case isTrue hupper =>
        exact absurd (lt_of_le_of_lt (UInt32.le_iff_toNat_le.mp hupper.2) (by decide)) hascii
      case isFalse => rfl
    rw [hself] at h
    rcases h with rfl | rfl
    · decide
    · decide

/-- Of the names that the general reader knows only one is a literal, in one spelling. -/
theorem not_isLiteral_name (sign : Sign) {name : List Char}
    (hname : name.map Char.toLower ∈ ["inf".toList, "infinity".toList, "nan".toList])
    (hne : name ≠ "Infinity".toList) : ¬IsLiteral (sign.chars ++ name) := by
  obtain ⟨c, rest, rfl, hc⟩ : ∃ c rest, name = c :: rest ∧ c ∈ ['i', 'I', 'n', 'N'] := by
    cases name with
    | nil => exact absurd hname (by decide)
    | cons c rest =>
      refine ⟨c, rest, rfl, mem_of_toLower ?_⟩
      simp only [List.map_cons, List.mem_cons, List.not_mem_nil, or_false] at hname
      rcases hname with hname | hname | hname
      · exact .inl (List.cons.inj hname).1
      · exact .inl (List.cons.inj hname).1
      · exact .inr (List.cons.inj hname).1
  obtain ⟨hminus, hplus, hzero, hpoint, hdigit⟩ :
      c ≠ '-' ∧ c ≠ '+' ∧ c ≠ '0' ∧ c ≠ '.' ∧ c.isDigit = false := by
    simp only [List.mem_cons, List.not_mem_nil, or_false] at hc
    rcases hc with rfl | rfl | rfl | rfl <;> decide
  have hcut : cutSign (sign.chars ++ c :: rest) = (sign.isNegative, c :: rest) := by
    apply cutSign_sign
    rintro d ⟨⟩
    exact ⟨hminus, hplus⟩
  intro h
  have hcases := h.unsigned_cases
  rw [hcut] at hcases
  rcases hcases with hnil | ⟨p, -, hp⟩ | hsame | ⟨s, hs⟩
  · cases hnil
  · exact hzero (List.cons.inj hp).1
  · exact hne hsame
  · obtain ⟨first, behind, hcons, hfirst⟩ := exists_unsigned_eq_cons s
    obtain rfl := (List.cons.inj (hs.trans hcons)).1
    rcases hfirst with hfirst | hfirst
    · exact Bool.eq_false_iff.mp hdigit hfirst
    · exact hpoint hfirst

end Literal

namespace Number

open Literal

theorem read?_eq_none_iff (text : String) :
    read? text = none ↔ ¬IsLiteral (Text.trim isMargin text.toList) := by
  rw [← isSome_readTrimmed_iff, Bool.not_eq_true, Option.isSome_eq_false_iff,
    Option.isNone_iff_eq_none]
  rfl

/-- **Exactly the literals are read as numbers.**  What stands in the margins does not count, and
    nothing at all is zero.  Looking first whether there is a decimal and then giving it to the
    general reader comes to the same, because that reader does not refuse decimals.  All
    else that it would take is refused, and so are radix literals with a sign, and blanks
    and separators inside a literal. -/
theorem read?_grammar (text : String) :
    let cs := Text.trim isMargin text.toList
    ((read? text).isSome = true ↔ IsLiteral cs) ∧
      (cs = [] → read? text = some .zero) ∧
      (read? text = readInStages cs ∧
        (isDecimal (cutSign cs).2 = true → (readFloat cs).isSome = true)) ∧
      (∀ (sign : Sign) (name : List Char), cs = sign.chars ++ name →
        name.map Char.toLower ∈ ["inf".toList, "infinity".toList, "nan".toList] →
        name ≠ "Infinity".toList → read? text = none) ∧
      (∀ (sign : Sign) (p : Prefixed), sign ≠ .none → cs = sign.chars ++ p.chars →
        read? text = none) ∧
      ∀ c ∈ cs, isMargin c = true ∨ c = '_' ∨ c = ',' → read? text = none := by
  intro cs
  refine ⟨isSome_readTrimmed_iff cs, fun hnil => ?_,
    ⟨(readInStages_eq cs).symm, fun hdecimal => ?_⟩, fun sign name hcs hname hne => ?_,
    fun sign p hsign hcs => ?_, fun c hc hkind => ?_⟩
  · show readTrimmed cs = _
    rw [hnil]
    rfl
  · rw [readFloat_of_isDecimal hdecimal, Option.isSome_map, ← isDecimal_eq, hdecimal]
  · rw [read?_eq_none_iff, show Text.trim isMargin text.toList = _ from hcs]
    exact not_isLiteral_name sign hname hne
  · rw [read?_eq_none_iff, show Text.trim isMargin text.toList = _ from hcs]
    exact not_isLiteral_signed_radix hsign p
  · rw [read?_eq_none_iff]
    intro h
    have hchar := h.isLiteralChar c hc
    rcases hkind with hmargin | rfl | rfl
    · exact Bool.eq_false_iff.mp (isMargin_of_isLiteralChar hchar) hmargin
    · exact absurd hchar (by decide)
    · exact absurd hchar (by decide)

/-- A decimal without a digit before its point, and four texts that come close to literals. -/
theorem read?_grammar_texts :
    (read? "\uFEFF+.5E-3 ").isSome = true ∧ read? "iNF" = none ∧ read? "-0x1F" = none ∧
      read? " 1 2 " = none ∧ read? "1_000" = none := by
  let half : Digits := ⟨['5'], List.all_eq_true.mp rfl⟩
  let power : Power := ⟨true, .minus, ⟨['3'], List.all_eq_true.mp rfl⟩, by decide⟩
  let spelling : Spelling :=
    ⟨.plus, ⟨[], List.forall_mem_nil _⟩, some half, some power, by decide⟩
  have hspelling : Text.trim isMargin "\uFEFF+.5E-3 ".toList = spelling.chars := by decide
  obtain ⟨hread, -⟩ := read?_grammar "\uFEFF+.5E-3 "
  obtain ⟨-, -, -, hname, -⟩ := read?_grammar "iNF"
  obtain ⟨-, -, -, -, hradix, -⟩ := read?_grammar "-0x1F"
  obtain ⟨-, -, -, -, -, hblank⟩ := read?_grammar " 1 2 "
  obtain ⟨-, -, -, -, -, hseparator⟩ := read?_grammar "1_000"
  let digits : List Radix.hexadecimal.Digit :=
    [⟨⟨1, by decide⟩, false⟩, ⟨⟨15, by decide⟩, true⟩]
  let prefixed : Prefixed := ⟨.hexadecimal, false, digits, List.cons_ne_nil _ _⟩
  refine ⟨hread.mpr ?_, hname .none "iNF".toList (by decide) (by decide) (by decide),
    hradix .minus prefixed (by decide) (by decide), hblank ' ' (by decide) (.inl (by decide)),
    hseparator '_' (by decide) (.inr (.inl rfl))⟩
  rw [hspelling]
  exact .decimal spelling

end Number

end DequeMachine

/-
  DequeMachine/Proofs/Number/Prefixed.lean
  ========================================
  **Radix literals as they are written and read.**

  A radix literal has a mark, which may be a capital letter, and at least one digit below the
  radix, whose letters may be capital as well.  `Literal.Prefixed` is the type of these: its
  characters and its value are told from the parts, the value by the places of the digits.
  The characters of a digit are read as the digit, and no others are (`digit?_char`,
  `exists_digit_of_digit?`); so the reader takes these literals and no others, and what it
  makes of one depends on the digits alone (`readRadix_chars`).
-/
import DequeMachine.Number.Literal
import DequeMachine.Proofs.Text
import Mathlib.Data.Nat.Digits.Defs

namespace DequeMachine.Literal

/-! ### How they are written -/

inductive Radix where
  | hexadecimal
  | octal
  | binary
deriving DecidableEq, Repr

namespace Radix

/-- How many binary digits one digit stands for. -/
def bits : Radix → Nat
  | hexadecimal => 4
  | octal => 3
  | binary => 1

def base (r : Radix) : Nat := 2 ^ r.bits

def mark (r : Radix) (capital : Bool) : Char :=
  match r with
  | hexadecimal => if capital then 'X' else 'x'
  | octal => if capital then 'O' else 'o'
  | binary => if capital then 'B' else 'b'

/-- How a digit may be written: small or, which makes a difference for letters only, large. -/
def digitChar (value : Nat) (capital : Bool) : Char :=
  if capital then (Nat.digitChar value).toUpper else Nat.digitChar value

/-- A digit as it is written. -/
structure Digit (r : Radix) where
  value : Fin r.base
  capital : Bool

def Digit.char {r : Radix} (d : r.Digit) : Char := digitChar d.value d.capital

end Radix

/-- A radix literal as it is written. -/
structure Prefixed where
  radix : Radix
  capital : Bool
  digits : List radix.Digit
  digits_ne_nil : digits ≠ []

namespace Prefixed

def chars (p : Prefixed) : List Char :=
  '0' :: p.radix.mark p.capital :: p.digits.map Radix.Digit.char

def values (p : Prefixed) : List Nat := p.digits.map fun d => d.value

/-- The natural number that is written, by place value. -/
def value (p : Prefixed) : Nat := Nat.ofDigits p.radix.base p.values.reverse

end Prefixed

/-! ### How they are read -/

theorem digit?_char {r : Radix} (d : r.Digit) : digit? r.base d.char = some d.value := by
  obtain ⟨value, capital⟩ := d
  cases r with
  | hexadecimal => revert value capital; decide
  | octal => revert value capital; decide
  | binary => revert value capital; decide

theorem exists_digitChar_of_digitWorth? {c : Char} {n : Nat} (h : digitWorth? c = some n)
    (hn : n < 16) : ∃ capital, Radix.digitChar n capital = c := by
  have hascii : c.toNat < 128 := by
    unfold digitWorth? at h
    split at h
    case isTrue hc => exact lt_of_le_of_lt (Char.le_def.mp hc.2) (by decide)
    case isFalse =>
      split at h
      case isTrue hc => exact lt_of_le_of_lt (Char.le_def.mp hc.2) (by decide)
      case isFalse =>
        split at h
        case isTrue hc => exact lt_of_le_of_lt (Char.le_def.mp hc.2) (by decide)
        case isFalse => cases h
  have hall : ∀ n ∈ digitWorth? c, n < 16 → ∃ capital, Radix.digitChar n capital = c :=
    Text.of_code_lt hascii (by decide)
  exact hall n h hn

theorem exists_digit_of_digit? {r : Radix} {c : Char} {n : Nat} (h : digit? r.base c = some n) :
    ∃ d : r.Digit, d.char = c ∧ d.value = n := by
  obtain ⟨hworth, hlt⟩ := Option.filter_eq_some_iff.mp h
  have hbase : n < r.base := of_decide_eq_true hlt
  have hsixteen : n < 16 := hbase.trans_le (by cases r <;> decide)
  obtain ⟨capital, hchar⟩ := exists_digitChar_of_digitWorth? hworth hsixteen
  exact ⟨⟨⟨n, hbase⟩, capital⟩, hchar, rfl⟩

theorem mapM_digit?_eq_some_iff {r : Radix} {cs : List Char} {ns : List Nat} :
    cs.mapM (digit? r.base) = some ns ↔
      ∃ ds : List r.Digit,
        ds.map Radix.Digit.char = cs ∧ ds.map (fun d => (d.value : Nat)) = ns := by
  constructor
  · intro h
    induction cs generalizing ns with
    | nil =>
      obtain rfl := Option.some.inj h
      exact ⟨[], rfl, rfl⟩
    | cons c rest ih =>
      simp only [List.mapM_cons, Option.bind_eq_bind, Option.bind_eq_some_iff, Option.pure_def,
        Option.some.injEq] at h
      obtain ⟨n, hn, others, hothers, rfl⟩ := h
      obtain ⟨d, rfl, rfl⟩ := exists_digit_of_digit? hn
      obtain ⟨ds, rfl, rfl⟩ := ih hothers
      exact ⟨d :: ds, rfl, rfl⟩
  · rintro ⟨ds, rfl, rfl⟩
    induction ds with
    | nil => rfl
    | cons d ds ih => simp [List.mapM_cons, digit?_char, ih]

theorem radix?_chars (p : Prefixed) :
    radix? p.chars = some (p.radix.base, p.digits.map Radix.Digit.char) := by
  have hmark : radixOfMark? (p.radix.mark p.capital) = some p.radix.base := by
    cases p.radix <;> cases p.capital <;> rfl
  rw [Prefixed.chars, radix?, hmark, Option.map_some]

theorem exists_mark_of_radix? {cs rest : List Char} {base : Nat}
    (h : radix? cs = some (base, rest)) :
    ∃ (r : Radix) (capital : Bool), base = r.base ∧ cs = '0' :: r.mark capital :: rest := by
  unfold radix? at h
  split at h
  · rename_i mark rest
    obtain ⟨b, hb, hpair⟩ := Option.map_eq_some_iff.mp h
    obtain ⟨rfl, rfl⟩ := Prod.mk.inj hpair
    unfold radixOfMark? at hb
    split at hb
    case isTrue hx =>
      obtain rfl := Option.some.inj hb
      rcases hx with rfl | rfl
      · exact ⟨.hexadecimal, false, rfl, rfl⟩
      · exact ⟨.hexadecimal, true, rfl, rfl⟩
    case isFalse =>
      split at hb
      case isTrue hx =>
        obtain rfl := Option.some.inj hb
        rcases hx with rfl | rfl
        · exact ⟨.octal, false, rfl, rfl⟩
        · exact ⟨.octal, true, rfl, rfl⟩
      case isFalse =>
        split at hb
        case isTrue hx =>
          obtain rfl := Option.some.inj hb
          rcases hx with rfl | rfl
          · exact ⟨.binary, false, rfl, rfl⟩
          · exact ⟨.binary, true, rfl, rfl⟩
        case isFalse => cases hb
  · cases h

/-- **A radix literal is read digit by digit.** -/
theorem readRadix_chars (p : Prefixed) :
    readRadix p.radix.base (p.digits.map Radix.Digit.char) =
      some (.signed false (accumulate p.radix.base p.values)) := by
  have hne : (p.digits.map Radix.Digit.char).isEmpty = false := by
    simp [p.digits_ne_nil]
  rw [readRadix, hne, mapM_digit?_eq_some_iff.mpr ⟨p.digits, rfl, rfl⟩]
  rfl

theorem exists_prefixed_of_readRadix {r : Radix} {cs : List Char} {x : Number} (capital : Bool)
    (h : readRadix r.base cs = some x) :
    ∃ p : Prefixed, p.chars = '0' :: r.mark capital :: cs := by
  unfold readRadix at h
  split at h
  case isTrue => cases h
  case isFalse hne =>
    obtain ⟨ns, hns, -⟩ := Option.map_eq_some_iff.mp h
    obtain ⟨ds, rfl, -⟩ := mapM_digit?_eq_some_iff.mp hns
    have hds : ds ≠ [] := by
      rintro rfl
      exact hne rfl
    exact ⟨⟨r, capital, ds, hds⟩, rfl⟩

end DequeMachine.Literal

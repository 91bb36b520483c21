/-
  DequeMachine/Proofs/Comparison.lean
  ===================================
  **Comparisons go by exact values.**

  A value stands for an extended real number (`Value.extended?`): a number for what its bits
  denote, truth for one and falsehood for zero.  The four comparisons ask how two of these
  lie, the value that was taken first being on the left (`Comparison.Relates`), and what they
  put on the deque is the answer to that (`holds_iff`).  If one of the values is not a
  number, the answer is always no (`holds_of_nan`).

  What holds of the order of the extended real numbers holds of the answers, therefore: one
  of greater, less and equal is true and no other (`existsUnique_relates`), and loose equality
  is having the same number on the line (`looselyEquals_iff`), which makes it an equivalence.
-/
import DequeMachine.Proofs.Machine
import DequeMachine.Proofs.Number.Extended

namespace DequeMachine

/-! ### What values stand for -/

namespace Value

/-- The extended real number that a value stands for, if it stands for one. -/
noncomputable def extended? : Value → Option EReal
  | .number x => extendedOfBits? x.toBits
  | .truth b => some (if b then 1 else 0)

/-- A value stands for what its number lies at. -/
theorem extended?_eq (v : Value) : v.extended? = v.toNumber.extended? := by
  cases v with
  | number x => exact x.extendedOfBits?_toBits
  | truth b =>
    cases b with
    | false => exact Number.extended?_zero.symm
    | true =>
      have hone := Number.extended?_ofNat (n := 1) (by decide)
      rw [Nat.cast_one, EReal.coe_one] at hone
      exact hone.symm

theorem extended?_eq_none_iff {v : Value} : v.extended? = none ↔ v = .number .nan := by
  cases v with
  | number x =>
    rw [extended?_eq, Value.number.injEq]
    exact Number.extended?_eq_none_iff
  | truth b => simp [extended?]

theorem exists_extended?_eq {v : Value} (h : v ≠ .number .nan) : ∃ p, v.extended? = some p :=
  Option.ne_none_iff_exists'.mp (mt extended?_eq_none_iff.mp h)

end Value

/-! ### The four comparisons -/

inductive Comparison where
  | greater
  | greaterOrEqual
  | less
  | equal
deriving DecidableEq, Repr

namespace Comparison

def operator : Comparison → Operator
  | .greater => .greater
  | .greaterOrEqual => .greaterOrEqual
  | .less => .less
  | .equal => .equal

/-- How a comparison asks two extended real numbers to lie. -/
def Relates (c : Comparison) (p q : EReal) : Prop :=
  match c with
  | .greater => p > q
  | .greaterOrEqual => p ≥ q
  | .less => p < q
  | .equal => p = q

/-- Is the answer yes, for a value that was taken first and one that was taken second? -/
def holds (c : Comparison) (a b : Value) : Bool := decide (c.operator.apply a b = .truth true)

theorem holds_eq (c : Comparison) (a b : Value) :
    c.holds a b =
      match c with
      | .greater => b.toNumber.less a.toNumber
      | .greaterOrEqual => b.toNumber.atMost a.toNumber
      | .less => a.toNumber.less b.toNumber
      | .equal => a.looselyEquals b := by
  cases c <;> simp [holds, operator, Operator.apply]

theorem apply_operator (c : Comparison) (a b : Value) :
    c.operator.apply a b = .truth (c.holds a b) := by
  cases c <;> rw [holds_eq] <;> rfl

section Answers

variable {a b : Value}

/-- What is not a number compares to nothing. -/
theorem holds_of_nan (h : a = .number .nan ∨ b = .number .nan) (c : Comparison) :
    c.holds a b = false := by
  have hunits : a.toNumber.units? = none ∨ b.toNumber.units? = none := by
    apply h.imp <;> rintro rfl <;> rfl
  rw [holds_eq]
  rcases hunits with hunits | hunits <;> cases c <;>
    simp [Number.less, Number.atMost, Value.looselyEquals, Number.equals, hunits]

variable {p q : EReal} (ha : a.extended? = some p) (hb : b.extended? = some q)
include ha hb

theorem holds_iff (c : Comparison) : c.holds a b = true ↔ c.Relates p q := by
  rw [Value.extended?_eq] at ha hb
  rw [holds_eq]
  cases c with
  | greater => exact Number.less_iff hb ha
  | greaterOrEqual => exact Number.atMost_iff hb ha
  | less => exact Number.less_iff ha hb
  | equal => exact Number.equals_iff ha hb

end Answers

theorem existsUnique_relates (p q : EReal) :
    ∃! c : Comparison, c ≠ .greaterOrEqual ∧ c.Relates p q := by
  rcases lt_trichotomy p q with hlt | heq | hgt
  · refine ⟨.less, ⟨by decide, hlt⟩, ?_⟩
    rintro c ⟨hne, hc⟩
    cases c with
    | greater => exact absurd hc hlt.not_gt
    | greaterOrEqual => exact absurd rfl hne
    | less => rfl
    | equal => exact absurd hc hlt.ne
  · refine ⟨.equal, ⟨by decide, heq⟩, ?_⟩
    rintro c ⟨hne, hc⟩
    cases c with
    | greater => exact absurd heq hc.ne'
    | greaterOrEqual => exact absurd rfl hne
    | less => exact absurd heq hc.ne
    | equal => rfl
  · refine ⟨.greater, ⟨by decide, hgt⟩, ?_⟩
    rintro c ⟨hne, hc⟩
    cases c with
    | greater => rfl
    | greaterOrEqual => exact absurd rfl hne
    | less => exact absurd hc hgt.not_gt
    | equal => exact absurd hc hgt.ne'

end Comparison

/-! ### Loose equality -/

/-- **Two values are loosely equal if they have the same number on the line.** -/
theorem Value.looselyEquals_iff {v w : Value} (h : v ≠ .number .nan) :
    v.looselyEquals w = true ↔ v.extended? = w.extended? := by
  obtain ⟨p, hp⟩ := exists_extended?_eq h
  have hholds : v.looselyEquals w = Comparison.equal.holds v w :=
    (Comparison.holds_eq .equal v w).symm
  rw [hholds]
  cases hq : w.extended? with
  | none =>
    rw [Comparison.holds_of_nan (.inr (extended?_eq_none_iff.mp hq)), hp]
    exact iff_of_false Bool.false_ne_true (Option.some_ne_none p)
  | some q =>
    rw [hp, Option.some.injEq]
    exact Comparison.holds_iff hp hq .equal

theorem Value.looselyEquals_equivalence :
    Equivalence fun v w : {v : Value // v ≠ .number .nan} => v.1.looselyEquals w.1 = true where
  refl v := (looselyEquals_iff v.2).mpr rfl
  symm {v w} h := by
    rw [looselyEquals_iff v.2] at h
    exact (looselyEquals_iff w.2).mpr h.symm
  trans {u v _} huv hvw := by
    rw [looselyEquals_iff u.2] at huv
    rw [looselyEquals_iff v.2] at hvw
    exact (looselyEquals_iff u.2).mpr (huv.trans hvw)

/-! ### Instructions that compare -/

namespace Machine

theorem exec_comparison (size : Nat) {m : Machine} {rest : Deque} {side : Side} {a b : Value}
    (h : m.deque = (rest.push side b).push side a) (c : Comparison) :
    m.exec size (.perform (.operator c.operator) side) =
      .next { m with deque := rest.push side (.truth (c.holds a b)), index := m.index + 1 } := by
  rw [← c.apply_operator]
  exact Instruction.comesTo_operator c.operator size m h

/-- **Comparisons go by exact values.**  A number stands for what its bits denote and a truth
    value for one or zero.  What is not a number compares to nothing.  All other values are
    compared by what they stand for, so that one of greater, less and equal holds and the two
    others do not, and loose equality is an equivalence. -/
theorem comparisons_exact :
    (∀ bits : Nat, (Value.number (.ofBits bits)).extended? = extendedOfBits? bits) ∧
    (∀ v : Value, v.extended? = none ↔ v = .number .nan) ∧
    (∀ (size : Nat) (m : Machine) (rest : Deque) (side : Side) (a b : Value),
      m.deque = (rest.push side b).push side a → ∀ c : Comparison,
        m.exec size (.perform (.operator c.operator) side) =
          .next { m with deque := rest.push side (.truth (c.holds a b)), index := m.index + 1 }) ∧
    (∀ a b : Value, a = .number .nan ∨ b = .number .nan →
      ∀ c : Comparison, c.holds a b = false) ∧
    (∀ (a b : Value) (p q : EReal), a.extended? = some p → b.extended? = some q →
      (∀ c : Comparison, c.holds a b = true ↔ c.Relates p q) ∧
      (Comparison.greaterOrEqual.holds a b =
        (Comparison.greater.holds a b || Comparison.equal.holds a b)) ∧
      ∃! c : Comparison, c ≠ .greaterOrEqual ∧ c.holds a b = true) ∧
    (∀ a b : Value, Comparison.greater.holds b a = Comparison.less.holds a b) ∧
    (Equivalence fun v w : {v : Value // v ≠ .number .nan} => v.1.looselyEquals w.1 = true) ∧
    ∀ v w : Value, v ≠ .number .nan → v = w → v.looselyEquals w = true := by
  refine ⟨?_, fun _ => Value.extended?_eq_none_iff, ?_, ?_, ?_, fun _ _ => rfl,
    Value.looselyEquals_equivalence, ?_⟩
  · intro bits
    rw [Value.extended?_eq]
    exact Number.extended?_ofBits bits
  · intro size m rest side a b hdeque c
    exact exec_comparison size hdeque c
  · intro a b hnan c
    exact Comparison.holds_of_nan hnan c
  · intro a b p q ha hb
    have hholds := Comparison.holds_iff ha hb
    refine ⟨hholds, ?_, ?_⟩
    · rw [Bool.eq_iff_iff, Bool.or_eq_true, hholds, hholds, hholds]
      exact le_iff_lt_or_eq.trans (or_congr_right eq_comm)
    · simp only [hholds]
      exact Comparison.existsUnique_relates p q
  · rintro v w hv rfl
    exact (Value.looselyEquals_iff hv).mpr rfl

/-- The number next to zero from below is less than falsehood, though its bits stand for a
    larger natural number; negative zero is loosely equal to falsehood; and what is not a number
    compares not even to itself. -/
theorem comparisons_exact_negative :
    exec 0 { fresh with deque := .ofList [.number (.ofBits (2 ^ 63 + 1)), .truth false] }
        (.perform (.operator .less) .left) =
      .next { fresh with deque := .ofList [.truth true], index := 1 } ∧
    exec 0 { fresh with deque := .ofList [.number (.ofBits (2 ^ 63)), .truth false] }
        (.perform (.operator .equal) .left) =
      .next { fresh with deque := .ofList [.truth true], index := 1 } ∧
    ∀ c : Comparison, c.holds (.number .nan) (.number .nan) = false := by
  obtain ⟨hbits, _, hexec, hnan, hrelates, _⟩ := comparisons_exact
  have hfalse : (Value.truth false).extended? = some 0 := rfl
  refine ⟨?_, ?_, hnan _ _ (.inl rfl)⟩
  · have hnumber : (Value.number (.ofBits (2 ^ 63 + 1))).extended? =
        some (-((2 ^ (-1074 : ℤ) : ℝ) : EReal)) := by
      rw [hbits]
      norm_num [extendedOfBits?, extendedOfFields?, underSign]
    have hneg : -((2 ^ (-1074 : ℤ) : ℝ) : EReal) < 0 := by
      rw [← EReal.coe_neg, EReal.coe_neg', neg_lt_zero]
      exact zpow_pos two_pos _
    have hless : Comparison.less.holds (.number (.ofBits (2 ^ 63 + 1))) (.truth false) = true :=
      ((hrelates _ _ _ _ hnumber hfalse).1 .less).mpr hneg
    have hstep := hexec 0
      { fresh with deque := .ofList [.number (.ofBits (2 ^ 63 + 1)), .truth false] }
      .empty .left (.number (.ofBits (2 ^ 63 + 1))) (.truth false) (Deque.ext (by simp)) .less
    rw [hless] at hstep
    exact hstep
  · have hnumber : (Value.number (.ofBits (2 ^ 63))).extended? = some 0 := by
      rw [hbits]
      norm_num [extendedOfBits?, extendedOfFields?, underSign]
    have hequal : Comparison.equal.holds (.number (.ofBits (2 ^ 63))) (.truth false) = true :=
      ((hrelates _ _ _ _ hnumber hfalse).1 .equal).mpr rfl
    have hstep := hexec 0
      { fresh with deque := .ofList [.number (.ofBits (2 ^ 63)), .truth false] }
      .empty .left (.number (.ofBits (2 ^ 63))) (.truth false) (Deque.ext (by simp)) .equal
    rw [hequal] at hstep
    exact hstep

end Machine

end DequeMachine

/-
  DequeMachine/Proofs/Bitwise.lean
  ================================
  **Bitwise instructions compute with integers of 32 bits and stay there.**

  What the operators do to words they do to the integers that the words stand for.  For
  conjunction and disjunction this is a matter of bits: an integer has the bits of its word
  and then its sign over and over (`testBit_toInt`), and integers with the same bits are equal
  (`eq_of_forall_testBit`).  The shifts are a quotient, rounded down, and a product, wrapped
  around (`Bitwise.exists_apply_eq`).

  A word goes into the deque as a number and comes back as the same word (`word_ofWord`),
  since an integer of 32 bits is a number without any rounding.  One instruction therefore
  does to the values at an end of the deque what the operator does to their integers
  (`exec_wordStep`), and by induction a whole chain of instructions, with numbers coming in
  at any point, computes what the chain computes on integers (`execAll_wordSteps`).
-/
import DequeMachine.Proofs.Machine
import DequeMachine.Proofs.Word
import Mathlib.Data.Int.Bitwise

namespace DequeMachine

/-! ### Integers by their bits -/

theorem eq_of_forall_testBit {a b : ℤ} (h : ∀ k, a.testBit k = b.testBit k) : a = b := by
  -- far enough out the bits say what the sign is
  have hsign : ∀ m n : Nat, ∃ k, (m : ℤ).testBit k ≠ (Int.negSucc n).testBit k := by
    intro m n
    refine ⟨m + n, ?_⟩
    have hzero : ∀ i ≤ m + n, i.testBit (m + n) = false := fun i hi =>
      Nat.testBit_lt_two_pow (Nat.lt_two_pow_self.trans_le (Nat.pow_le_pow_right two_pos hi))
    simp [Int.testBit, hzero m (by omega), hzero n (by omega)]
  cases a with
  | ofNat m =>
    cases b with
    | ofNat n => exact congrArg Int.ofNat (Nat.eq_of_testBit_eq h)
    | negSucc n =>
      obtain ⟨k, hk⟩ := hsign m n
      exact absurd (h k) hk
  | negSucc m =>
    cases b with
    | ofNat n =>
      obtain ⟨k, hk⟩ := hsign n m
      exact absurd (h k).symm hk
    | negSucc n =>
      refine congrArg Int.negSucc (Nat.eq_of_testBit_eq fun k => ?_)
      exact Bool.not_inj (h k)

/-- An integer has the bits of its word, and behind them the sign over and over. -/
theorem testBit_toInt {w : Nat} (x : BitVec w) (k : Nat) :
    x.toInt.testBit k = if k < w then x.getLsbD k else x.msb := by
  rw [BitVec.toInt_eq_msb_cond]
  cases hmsb : x.msb with
  | false =>
    rw [if_neg Bool.false_ne_true]
    show x.toNat.testBit k = _
    split
    · rfl
    · exact Nat.testBit_lt_two_pow (x.isLt.trans_le (Nat.pow_le_pow_right two_pos (by omega)))
  | true =>
    rw [if_pos rfl]
    have hneg : (x.toNat : ℤ) - (2 ^ w : Nat) = Int.negSucc (2 ^ w - (x.toNat + 1)) := by
      have := x.isLt
      omega
    rw [hneg]
    show (!(2 ^ w - (x.toNat + 1)).testBit k) = _
    rw [Nat.testBit_two_pow_sub_succ x.isLt]
    split <;> simp_all [BitVec.getLsbD]

theorem toInt_or {w : Nat} (x y : BitVec w) : (x ||| y).toInt = x.toInt.lor y.toInt := by
  refine eq_of_forall_testBit fun k => ?_
  rw [Int.testBit_lor, testBit_toInt, testBit_toInt, testBit_toInt, BitVec.getLsbD_or,
    BitVec.msb_or]
  split <;> rfl

theorem toInt_and {w : Nat} (x y : BitVec w) : (x &&& y).toInt = x.toInt.land y.toInt := by
  refine eq_of_forall_testBit fun k => ?_
  rw [Int.testBit_land, testBit_toInt, testBit_toInt, testBit_toInt, BitVec.getLsbD_and,
    BitVec.msb_and]
  split <;> rfl

/-! ### From a word to a number and back -/

theorem withSign_natAbs (n : ℤ) : withSign (decide (n < 0)) n.natAbs = n := by
  rw [withSign]
  split
  case isTrue h =>
    have := of_decide_eq_true h
    omega
  case isFalse h =>
    have := of_decide_eq_false (Bool.eq_false_iff.mpr h)
    omega

namespace Number

theorem ofInt_eq (n : ℤ) : ofInt n = .signed (decide (n < 0)) (.ofNat n.natAbs) := by
  have hpos : (0 : ℤ) < (unitsPerOne : Nat) := Int.natCast_pos.mpr zero_lt_unitsPerOne
  have hsign : decide (n * (unitsPerOne : Nat) < 0) = decide (n < 0) :=
    decide_eq_decide.mpr
      ⟨fun h => neg_of_mul_neg_left h hpos.le, fun h => mul_neg_of_neg_of_pos h hpos⟩
  rw [ofInt, ofUnits, hsign, Int.natAbs_mul, Int.natAbs_natCast]
  by_cases hzero : n = 0
  · rw [hzero, zero_mul, if_pos rfl]
    rfl
  · rw [if_neg (mul_ne_zero hzero hpos.ne')]
    rfl

section OfInt

variable {n : ℤ} (hn : n.natAbs < 2 ^ 53)
include hn

theorem worth?_ofInt : (ofInt n).worth? = some (n : ℚ) := by
  rw [ofInt_eq, worth?_signed_ofNat_of_lt _ hn, withSign_natAbs]

theorem ofInt_ne_negZero : ofInt n ≠ .signed true .zero := by
  rw [ofInt_eq]
  intro h
  obtain ⟨hneg, hzero⟩ := Number.signed.inj h
  have hunits : n.natAbs * unitsPerOne = 0 := by
    rw [← Magnitude.units_ofNat hn, hzero, Magnitude.units, Magnitude.zero, unitsAtRank_zero]
  have hnat : n.natAbs = 0 :=
    (Nat.mul_eq_zero.mp hunits).resolve_right zero_lt_unitsPerOne.ne'
  have := of_decide_eq_true hneg
  omega

end OfInt

end Number

theorem natAbs_toInt_lt (w : BitVec 32) : w.toInt.natAbs < 2 ^ 53 := by
  have hlow := w.le_toInt
  have hhigh := w.toInt_lt
  omega

@[simp] theorem Value.word_ofWord (w : BitVec 32) : (ofWord w).word = w := by
  have hworth : (ofWord w).toNumber.worth? = some (w.toInt : ℚ) :=
    Number.worth?_ofInt (natAbs_toInt_lt w)
  rw [word_eq_ofInt hworth, wholePart_intCast, BitVec.ofInt_toInt]

/-! ### The four operators -/

inductive Bitwise where
  | shiftRight
  | shiftLeft
  | bitOr
  | bitAnd
deriving DecidableEq, Repr

namespace Bitwise

def operator : Bitwise → Operator
  | .shiftRight => .shiftRight
  | .shiftLeft => .shiftLeft
  | .bitOr => .bitOr
  | .bitAnd => .bitAnd

/-- What the operators make of two integers.  A shift goes by the first one modulo 32, to
    the right rounding down, to the left wrapping around. -/
def result (op : Bitwise) (a b : ℤ) : ℤ :=
  match op with
  | .shiftRight => ⌊(b : ℚ) / 2 ^ (a % 32).toNat⌋
  | .shiftLeft => (b * 2 ^ (a % 32).toNat).bmod (2 ^ 32)
  | .bitOr => a.lor b
  | .bitAnd => a.land b

theorem shift_eq (v : Value) : v.shift = (v.word.toInt % 32).toNat := by
  rw [← v.cast_shift, Int.toNat_natCast]

theorem exists_apply_eq (op : Bitwise) (a b : Value) :
    ∃ w : BitVec 32, op.operator.apply a b = .ofWord w ∧
      w.toInt = op.result a.word.toInt b.word.toInt := by
  cases op with
  | shiftRight =>
    refine ⟨_, rfl, ?_⟩
    rw [BitVec.toInt_sshiftRight, Int.shiftRight_eq_div_pow, shift_eq, result]
    have hfloor := Rat.floor_intCast_div_natCast b.word.toInt (2 ^ (a.word.toInt % 32).toNat)
    rwa [Nat.cast_pow, Nat.cast_ofNat, eq_comm] at hfloor
  | shiftLeft =>
    refine ⟨_, rfl, ?_⟩
    rw [BitVec.toInt_shiftLeft, shift_eq, result, Nat.shiftLeft_eq]
    generalize (a.word.toInt % 32).toNat = distance
    rw [BitVec.toInt_eq_toNat_bmod, Int.bmod_mul_bmod, Nat.cast_mul, Nat.cast_pow, Nat.cast_ofNat]
  | bitOr => exact ⟨_, rfl, toInt_or _ _⟩
  | bitAnd => exact ⟨_, rfl, toInt_and _ _⟩

end Bitwise

/-! ### Chains of instructions -/

/-- A row as it is met from an end. -/
def Side.facing (side : Side) (row : List ℤ) : List ℤ :=
  match side with
  | .left => row
  | .right => row.reverse

@[simp] theorem Side.facing_facing (side : Side) (row : List ℤ) :
    side.facing (side.facing row) = row := by
  cases side with
  | left => rfl
  | right => exact row.reverse_reverse

/-- The values of a deque as integers of 32 bits. -/
def Deque.integers (d : Deque) : List ℤ := d.toList.map fun v => v.word.toInt

theorem Deque.integers_push (d : Deque) (side : Side) (v : Value) :
    (d.push side v).integers = side.facing (v.word.toInt :: side.facing d.integers) := by
  cases side <;> simp [integers, Side.facing]

/-- A step of a chain: a number comes in, or an operator works on an end. -/
inductive WordStep where
  | push (side : Side) (x : Number)
  | apply (op : Bitwise) (side : Side)
deriving DecidableEq, Repr

namespace WordStep

def instruction : WordStep → Instruction
  | .push side x => .push side x
  | .apply op side => .perform (.operator op.operator) side

/-- The same step on a row of integers.  An operator needs two of them. -/
def onIntegers (step : WordStep) (row : List ℤ) : Option (List ℤ) :=
  match step with
  | .push side x => some (side.facing ((Value.number x).word.toInt :: side.facing row))
  | .apply op side =>
    match side.facing row with
    | a :: b :: rest => some (side.facing (op.result a b :: rest))
    | _ => none

end WordStep

namespace Machine

variable (size : Nat) {m : Machine} {rest : Deque} {side : Side} {a b : Value}

theorem perform_operator (op : Operator) (h : m.deque = (rest.push side b).push side a) :
    m.perform size (.operator op) side =
      .next { m with deque := rest.push side (op.apply a b), index := m.index + 1 } :=
  Instruction.comesTo_operator op size m h

/-- **A step does to a deque what it does to the integers in it.** -/
theorem exec_wordStep (size : Nat) (m : Machine) (step : WordStep) :
    match step.onIntegers m.deque.integers with
    | some row => ∃ d : Deque, d.integers = row ∧
        m.exec size step.instruction = .next { m with deque := d, index := m.index + 1 }
    | none => ∃ d : Deque,
        m.exec size step.instruction = .fail (.emptyDeque m.index) { m with deque := d } := by
  cases step with
  | push side x => exact ⟨m.deque.push side (.number x), m.deque.integers_push side _, rfl⟩
  | apply op side =>
    have hstarve : m.deque.size < 2 → m.exec size (.perform (.operator op.operator) side) =
        .fail (.emptyDeque m.index) { m with deque := .empty } := by
      intro hfew
      rw [exec]
      exact perform_of_lt_pops size side hfew
    have hfacing : side.facing Deque.empty.integers = [] := by cases side <;> rfl
    rcases m.deque.eq_push_cases side with hdeque | ⟨a, hdeque⟩ | ⟨a, b, rest, hdeque⟩
    · rw [WordStep.onIntegers, hdeque, hfacing]
      exact ⟨.empty, hstarve (by rw [hdeque]; decide)⟩
    · rw [WordStep.onIntegers, hdeque, Deque.integers_push, Side.facing_facing, hfacing]
      exact ⟨.empty, hstarve (by rw [hdeque, Deque.size_push]; decide)⟩
    · rw [WordStep.onIntegers, hdeque, Deque.integers_push, Deque.integers_push, Side.facing_facing,
        Side.facing_facing]
      obtain ⟨w, happly, hw⟩ := op.exists_apply_eq a b
      refine ⟨rest.push side (.ofWord w), ?_, ?_⟩
      · rw [Deque.integers_push, Value.word_ofWord, hw]
      · rw [← happly]
        exact perform_operator size op.operator hdeque

/-- **A chain of steps computes with integers of 32 bits.**  The integers that are left are
    those that the same chain leaves of integers alone, and there is a fault only where an
    operator has fewer than two of these. -/
theorem execAll_wordSteps (size : Nat) (m : Machine) (steps : List WordStep) :
    match steps.foldlM (fun row step => step.onIntegers row) m.deque.integers with
    | some row => ∃ d : Deque, d.integers = row ∧
        m.execAll size (steps.map WordStep.instruction) =
          .next { m with deque := d, index := m.index + steps.length }
    | none => ∃ (index : Nat) (left : Machine),
        m.execAll size (steps.map WordStep.instruction) = .fail (.emptyDeque index) left := by
  induction steps generalizing m with
  | nil => exact ⟨m.deque, rfl, rfl⟩
  | cons step steps ih =>
    have hstep := exec_wordStep size m step
    rw [List.foldlM_cons, List.map_cons, execAll]
    cases hrow : step.onIntegers m.deque.integers with
    | none =>
      rw [hrow] at hstep
      obtain ⟨d, hexec⟩ := hstep
      rw [hexec]
      exact ⟨m.index, _, rfl⟩
    | some row =>
      rw [hrow] at hstep
      obtain ⟨d, hd, hexec⟩ := hstep
      have hrest := ih { m with deque := d, index := m.index + 1 }
      rw [hd] at hrest
      rw [hexec, Option.bind_eq_bind, Option.bind_some]
      simp only [List.length_cons, Nat.add_comm steps.length, ← Nat.add_assoc]
      exact hrest

/-- **Bitwise instructions compute with integers of 32 bits and stay there.**  What they put on
    the deque is exactly the integer that comes out, and so nothing is lost between one
    instruction and the next. -/
theorem bitwise_on_integers (size : Nat) (m : Machine) :
    (∀ (op : Bitwise) (side : Side) (a b : Value) (rest : Deque),
      m.deque = (rest.push side b).push side a →
      a.shift = (a.word.toInt % 32).toNat ∧
      ∃ (x : Number) (n : ℤ), n = op.result a.word.toInt b.word.toInt ∧
        m.exec size (.perform (.operator op.operator) side) =
          .next { m with deque := rest.push side (.number x), index := m.index + 1 } ∧
        x.worth? = some (n : ℚ) ∧ -2 ^ 31 ≤ n ∧ n < 2 ^ 31 ∧ x ≠ .signed true .zero ∧
        (Value.number x).word.toInt = n) ∧
    ∀ steps : List WordStep,
      match steps.foldlM (fun row step => step.onIntegers row) m.deque.integers with
      | some row => ∃ d : Deque, d.integers = row ∧
          m.execAll size (steps.map WordStep.instruction) =
            .next { m with deque := d, index := m.index + steps.length }
      | none => ∃ (index : Nat) (left : Machine),
          m.execAll size (steps.map WordStep.instruction) = .fail (.emptyDeque index) left := by
  refine ⟨fun op side a b rest hdeque => ⟨Bitwise.shift_eq a, ?_⟩, execAll_wordSteps size m⟩
  obtain ⟨w, happly, hw⟩ := op.exists_apply_eq a b
  refine ⟨.ofInt w.toInt, w.toInt, hw, ?_, ?_, w.le_toInt, w.toInt_lt, ?_, ?_⟩
  · exact (perform_operator size op.operator hdeque).trans (by rw [happly, Value.ofWord])
  · exact Number.worth?_ofInt (natAbs_toInt_lt w)
  · exact Number.ofInt_ne_negZero (natAbs_toInt_lt w)
  · exact congrArg BitVec.toInt (Value.word_ofWord w)

/-- The largest integer, shifted to the left by the truth value, wraps around to minus two. -/
theorem bitwise_on_integers_wrapped :
    ∃ x : Number,
      exec 0 { fresh with deque := .ofList [.truth true, .ofWord 0x7fffffff] }
          (.perform (.operator .shiftLeft) .left) =
        .next { fresh with deque := .ofList [.number x], index := 1 } ∧
      x.worth? = some (-2) := by
  have hdeque : Deque.ofList [.truth true, .ofWord 0x7fffffff] =
      (Deque.empty.push .left (.ofWord 0x7fffffff)).push .left (.truth true) := Deque.ext (by simp)
  obtain ⟨_, x, n, hn, hexec, hworth, _⟩ :=
    (bitwise_on_integers 0 { fresh with deque := .ofList [.truth true, .ofWord 0x7fffffff] }).1
      .shiftLeft .left (.truth true) (.ofWord 0x7fffffff) .empty hdeque
  have hone : (Value.truth true).word = 1 := by decide +kernel
  rw [Value.word_ofWord, hone] at hn
  obtain rfl : n = -2 := hn.trans (by decide)
  exact ⟨x, hexec, by simpa using hworth⟩

end Machine

end DequeMachine

/-
  DequeMachine/Proofs/Run/Jump.lean
  =================================
  **Where a jump leads.**

  A jump looks at its target twice: it has to count as a yes, and its number has to be a
  natural one.  Between the two every value is accounted for.  It counts as no
  (`Value.IsNo`), or it is an infinity, a negative number or a fraction (`Value.IsNoIndex`),
  or its exact value is a natural number, which is where the jump leads.

  The index of a label becomes a number when the label is referred to, and an index again
  when there is a jump to it.  Both ways are exact up to 2^53 (`worth?_ofNat`), so that the
  jump leads to the token that defines the label, with the deque as it was before.  The one
  exception is a label at index zero, which counts as no.
-/
import DequeMachine.Proofs.Run.Basic
import DequeMachine.Proofs.Word

namespace DequeMachine

variable {σ : Type}

/-! ### Numbers that are indices -/

namespace Magnitude

theorem isZero_iff_worth {m : Magnitude} : m.isZero = true ↔ m.worth = 0 := by
  have hzero := @worth_eq_iff m 0
  rw [Nat.cast_zero, Nat.zero_mul] at hzero
  rw [isZero_iff, hzero]

theorem isWhole_and_floor_eq_iff {m : Magnitude} {n : Nat} :
    m.isWhole = true ∧ m.floor = n ↔ m.worth = n := by
  rw [worth_eq_iff, isWhole, beq_iff_eq, floor]
  constructor
  · rintro ⟨hwhole, rfl⟩
    exact (Nat.div_mul_cancel (Nat.dvd_of_mod_eq_zero hwhole)).symm
  · intro h
    rw [h]
    exact ⟨Nat.mul_mod_left n _, Nat.mul_div_cancel n zero_lt_unitsPerOne⟩

end Magnitude

namespace Number

theorem worth?_ofNat {n : Nat} (hn : n ≤ 2 ^ 53) : (ofNat n).worth? = some (n : ℚ) := by
  rw [ofNat, worth?_signed_ofNat false (Magnitude.isFinite_ofNat_of_le hn)
    (Magnitude.units_ofNat_of_le hn)]
  rfl

theorem isTruthy_ofNat {n : Nat} (hpos : 1 ≤ n) (hn : n ≤ 2 ^ 53) : (ofNat n).isTruthy = true := by
  have hunits : 0 < n * unitsPerOne := Nat.mul_pos hpos zero_lt_unitsPerOne
  rw [ofNat, isTruthy, Bool.not_eq_true', Bool.eq_false_iff, Ne, Magnitude.isZero_iff,
    Magnitude.units_ofNat_of_le hn]
  exact hunits.ne'

/-- A number stands for an index if its exact value is that natural number. -/
theorem toNat?_eq_some_iff {x : Number} {n : Nat} :
    x.toNat? = some n ↔ x.worth? = some (n : ℚ) := by
  cases x with
  | nan => simp [toNat?, worth?]
  | signed negative m =>
    cases hfinite : m.isFinite with
    | false => simp [toNat?, worth?, hfinite]
    | true =>
      cases negative with
      | false =>
        simp [toNat?, worth?, hfinite, Magnitude.isWhole_and_floor_eq_iff]
      | true =>
        -- a negative number is no natural one unless it is zero
        have hzero : m.isZero = true ∧ m.worth = n ↔ -m.worth = n := by
          have hnonneg := m.worth_nonneg
          have hcast : (0 : ℚ) ≤ n := Nat.cast_nonneg n
          rw [Magnitude.isZero_iff_worth]
          constructor
          · rintro ⟨hworth, hn⟩
            linarith
          · intro h
            exact ⟨by linarith, by linarith⟩
        simp [toNat?, worth?, hfinite, ← hzero, ← Magnitude.isWhole_and_floor_eq_iff,
          and_assoc, and_left_comm]

@[simp] theorem worth?_infinity (negative : Bool) : (signed negative .infinity).worth? = none := by
  simp [worth?, Magnitude.isFinite, Magnitude.infinity]

/-- Every number has an exact value, or is an infinity, or is none. -/
theorem worth?_cases (x : Number) :
    x = .nan ∨ (∃ negative, x = .signed negative .infinity) ∨ ∃ q, x.worth? = some q := by
  cases x with
  | nan => exact .inl rfl
  | signed negative m =>
    by_cases hfinite : m.isFinite = true
    · exact .inr (.inr ⟨_, if_pos hfinite⟩)
    · rw [Bool.not_eq_true, Magnitude.isFinite_eq_false_iff] at hfinite
      exact .inr (.inl ⟨negative, congrArg (signed negative) hfinite⟩)

end Number

/-! ### Values as targets -/

namespace Value

/-- Falsehood, both zeros and what is not a number count as no. -/
def IsNo (v : Value) : Prop :=
  v = .truth false ∨ v = .number .nan ∨ ∃ negative, v = .number (.signed negative .zero)

/-- An infinity, a negative number or a fraction. -/
def IsNoIndex (v : Value) : Prop :=
  (∃ negative, v.toNumber = .signed negative .infinity) ∨
    ∃ q, v.toNumber.worth? = some q ∧ (q < 0 ∨ ∀ n : ℤ, q ≠ n)

theorem isTruthy_eq_false_iff {v : Value} : v.isTruthy = false ↔ v.IsNo := by
  cases v with
  | truth b => simp [isTruthy, IsNo]
  | number x =>
    cases x with
    | nan => simp [isTruthy, Number.isTruthy, IsNo]
    | signed negative m =>
      simp [isTruthy, Number.isTruthy, IsNo, ← Magnitude.isZero_iff_eq_zero]

theorem not_isNo_iff {v : Value} : ¬ v.IsNo ↔ v.isTruthy = true := by
  rw [← isTruthy_eq_false_iff, Bool.not_eq_false]

theorem toNat?_eq_none_iff {v : Value} (hyes : v.isTruthy = true) :
    v.toNumber.toNat? = none ↔ v.IsNoIndex := by
  have hnumber : v.toNumber ≠ .nan := by
    cases v with
    | truth b => cases b <;> simp [toNumber, Number.zero, Number.ofNat]
    | number x =>
      rintro rfl
      cases hyes
  rw [Option.eq_none_iff_forall_ne_some, IsNoIndex]
  simp only [Ne, Number.toNat?_eq_some_iff]
  rcases v.toNumber.worth?_cases with hnan | ⟨negative, hinfinite⟩ | ⟨q, hworth⟩
  · exact absurd hnan hnumber
  · rw [hinfinite, Number.worth?_infinity]
    simp
  · have hfinite : ¬ ∃ negative, v.toNumber = .signed negative .infinity := by
      rintro ⟨negative, hinfinite⟩
      rw [hinfinite, Number.worth?_infinity] at hworth
      cases hworth
    simp only [hworth, hfinite, Option.some.injEq, false_or, exists_eq_left']
    constructor
    · intro h
      refine or_iff_not_imp_left.mpr ?_
      rintro hnonneg n rfl
      obtain ⟨k, rfl⟩ := Int.eq_ofNat_of_zero_le (Int.cast_nonneg_iff.mp (not_lt.mp hnonneg))
      exact h k rfl
    · rintro (hneg | hfraction) n rfl
      · exact absurd (Nat.cast_nonneg n) (not_le.mpr hneg)
      · exact hfraction n rfl

end Value

/-! ### Jumps -/

namespace Machine

variable (m : Machine) {v : Value}

theorem jumpTo_of_isNo (h : v.IsNo) : m.jumpTo v = .fail (.unknownLabel m.index v) m := by
  rw [jumpTo, Value.isTruthy_eq_false_iff.mpr h, if_neg Bool.false_ne_true]

theorem jumpTo_of_isNoIndex (hyes : v.isTruthy = true) (h : v.IsNoIndex) :
    m.jumpTo v = .fail (.invalidTarget m.index v) m := by
  rw [jumpTo, if_pos hyes, (Value.toNat?_eq_none_iff hyes).mpr h]

theorem jumpTo_of_worth? {n : Nat} (hyes : v.isTruthy = true)
    (h : v.toNumber.worth? = some (n : ℚ)) :
    m.jumpTo v = .next { m with index := min n lastIndex } := by
  rw [jumpTo, if_pos hyes, Number.toNat?_eq_some_iff.mpr h]

theorem jumpTo_ofNat {i : Nat} (hpos : 1 ≤ i) (hi : i ≤ 2 ^ 53) :
    m.jumpTo (.number (.ofNat i)) = .next { m with index := i } := by
  have hlast : i ≤ lastIndex := hi.trans (by decide)
  have hjump := m.jumpTo_of_worth? (v := .number (.ofNat i)) (Number.isTruthy_ofNat hpos hi)
    (Number.worth?_ofNat hi)
  rwa [Nat.min_eq_left hlast] at hjump

/-- **Every target is refused for one reason or leads somewhere.** -/
theorem jumpTo_cases (v : Value) :
    (v.IsNo ∧ m.jumpTo v = .fail (.unknownLabel m.index v) m) ∨
      (¬ v.IsNo ∧ v.IsNoIndex ∧ m.jumpTo v = .fail (.invalidTarget m.index v) m) ∨
      (¬ v.IsNo ∧ ¬ v.IsNoIndex ∧ ∃ n : ℕ, v.toNumber.worth? = some (n : ℚ) ∧
        m.jumpTo v = .next { m with index := min n lastIndex }) := by
  by_cases hno : v.IsNo
  · exact .inl ⟨hno, m.jumpTo_of_isNo hno⟩
  · have hyes := Value.not_isNo_iff.mp hno
    by_cases hindex : v.IsNoIndex
    · exact .inr (.inl ⟨hno, hindex, m.jumpTo_of_isNoIndex hyes hindex⟩)
    · obtain ⟨n, hn⟩ := Option.ne_none_iff_exists'.mp (mt (Value.toNat?_eq_none_iff hyes).mp hindex)
      have hworth := Number.toNat?_eq_some_iff.mp hn
      exact .inr (.inr ⟨hno, hindex, n, hworth, m.jumpTo_of_worth? hyes hworth⟩)

end Machine

/-! ### Jumps to labels -/

namespace Token

/-- A token that stands for a label: it is no instruction word, defines no label of its own
    and is no literal. -/
structure Refers (rule : StripRule) (token : String) (side : Side) (name : String) : Prop where
  decode_eq : decode rule token = ⟨side, name, false⟩
  noWord : Mnemonic.ofName? name = none
  noLiteral : Number.read? name = none

end Token

namespace Task

section Labelled

variable {task : Task} {sink : Sink σ} {side : Side}

theorem instruction_of_refers {m : Machine} {token name : String} {i : Nat}
    (h : Token.Refers task.config.rule token side name) (hget : m.labels.get? name = some i) :
    task.instruction m token = .push side (.ofNat i) := by
  rw [instruction, Instruction.ofToken, h.decode_eq]
  exact Instruction.ofDecoded_of_get? h.noWord h.noLiteral hget

/-- A turn that another one follows was shown, if need be, and has carried out its token. -/
theorem next_eq_going {run : Run σ} {m m' : Machine} {token : String} {s : σ}
    (hbegin : task.beginning? run = some (m, token)) (h : task.next sink run = .going m' s) :
    ∃ t, task.carryOut sink token { m with steps := m.steps + 1 } t = .going m' s := by
  rw [next_of_beginning? sink hbegin] at h
  cases hshown : task.announce sink token m run.state with
  | accepted t =>
    rw [begin_of_accepted sink hshown] at h
    exact ⟨t, h⟩
  | refused reason t =>
    rw [begin_of_refused sink hshown] at h
    cases h

/-- A jump takes its target and nothing else. -/
theorem next_of_asks_jump {run : Run σ} {m : Machine} {rest : Deque} {token : String}
    {target : Value} {t : σ} (hbegin : task.beginning? run = some (m, token))
    (hword : Token.Asks task.config.rule token .jump side)
    (hshown : task.announce sink token m run.state = .accepted t)
    (hdeque : m.deque = rest.push side target) :
    task.next sink run =
      settle sink (({ m with deque := rest, steps := m.steps + 1 } : Machine).jumpTo target) t := by
  have hmeaning : task.instruction { m with steps := m.steps + 1 } token = .perform .jump side :=
    Instruction.ofToken_eq_perform_iff.mpr hword
  have htake := Machine.take_of_push (m := { m with steps := m.steps + 1 }) hdeque
    fun target m => m.jumpTo target
  rw [next_of_beginning? sink hbegin, begin_of_accepted sink hshown, carryOut,
    hmeaning, Machine.exec, Machine.perform, htake]

/-- **A jump to a label leads to the index of the label,** with the deque as it was. -/
theorem run_label_jump {labels : Labels} {name : String} {i : Nat}
    (hlabels : Labels.ofProgram task.program = .ok labels) (hget : labels.get? name = some i)
    (hle : i ≤ 2 ^ 53) {start m between : Machine} {state t : σ} {k : Nat} {token token' : String}
    (hrefer : task.beginning? (task.run sink start state k) = some (m, token))
    (hname : Token.Refers task.config.rule token side name)
    (hjump : task.beginning? (task.run sink start state (k + 1)) = some (between, token'))
    (hword : Token.Asks task.config.rule token' .jump side)
    (hshown : task.announce sink token' between (task.run sink start state (k + 1)).state =
      .accepted t) :
    (1 ≤ i → task.run sink start state (k + 2) =
      .going { m with index := i, steps := m.steps + 2 } t) ∧
    (i = 0 → task.run sink start state (k + 2) =
      .ended (.error (.unknownLabel (m.index + 1) (.number .zero)))
        { m with index := m.index + 1, steps := m.steps + 2 } t) := by
  have hknown : m.labels = labels := by
    obtain ⟨⟨s, hgoing⟩, _, _⟩ := beginning?_eq_some_iff.mp hrefer
    have := task.labels_run sink start state hlabels k
    rwa [hgoing] at this
  obtain ⟨⟨s, hgoing⟩, _, _⟩ := beginning?_eq_some_iff.mp hjump
  -- the reference puts the index on the deque
  have hbetween : between = { m with
      deque := m.deque.push side (.number (.ofNat i)), index := m.index + 1,
      steps := m.steps + 1 } := by
    rw [run_succ] at hgoing
    obtain ⟨u, hcarry⟩ := next_eq_going hrefer hgoing
    have hpush : task.instruction { m with steps := m.steps + 1 } token =
        .push side (.ofNat i) := instruction_of_refers hname (hknown ▸ hget)
    rw [carryOut, hpush] at hcarry
    cases hcarry
    rfl
  subst hbetween
  -- the jump takes it from there
  rw [run_succ, next_of_asks_jump hjump hword hshown rfl]
  constructor
  · intro hpos
    rw [Machine.jumpTo_ofNat _ hpos hle]
    rfl
  · rintro rfl
    have hzero : Number.ofNat 0 = .zero := by decide +kernel
    have hno : (Value.number .zero).IsNo := .inr (.inr ⟨false, rfl⟩)
    rw [hzero, Machine.jumpTo_of_isNo _ hno]
    rfl

end Labelled

/-- **Jumps land where they say.** -/
theorem jumps_land (task : Task) (sink : Sink σ) :
    (∀ (m : Machine) (v : Value),
      (v.IsNo ↔ m.jumpTo v = .fail (.unknownLabel m.index v) m) ∧
      (¬ v.IsNo ∧ v.IsNoIndex ↔ m.jumpTo v = .fail (.invalidTarget m.index v) m) ∧
      (¬ v.IsNo ∧ ¬ v.IsNoIndex ↔ ∃ n : ℕ, v.toNumber.worth? = some (n : ℚ) ∧
        m.jumpTo v = .next { m with index := min n (2 ^ 64 - 1) })) ∧
    (∀ (m m' : Machine) (v : Value) (n : ℕ) (s : σ), task.program.size < 2 ^ 64 →
      v.toNumber.worth? = some (n : ℚ) → task.program.size ≤ n → m.jumpTo v = .next m' →
      task.next sink (.going m' s) =
        .ended (.ok ⟨m.halt.getD .endOfProgram, m.deque.toList, m.steps⟩) m' s) ∧
    (∀ (labels : Labels) (name : String) (i : ℕ), Labels.ofProgram task.program = .ok labels →
      labels.get? name = some i → i ≤ 2 ^ 53 →
      ∀ (start m between : Machine) (state t : σ) (k : ℕ) (side : Side) (token token' : String),
        task.beginning? (task.run sink start state k) = some (m, token) →
        Token.Refers task.config.rule token side name →
        task.beginning? (task.run sink start state (k + 1)) = some (between, token') →
        Token.Asks task.config.rule token' .jump side →
        task.announce sink token' between (task.run sink start state (k + 1)).state =
          .accepted t →
        (1 ≤ i → task.run sink start state (k + 2) =
          .going { m with index := i, steps := m.steps + 2 } t) ∧
        (i = 0 → task.run sink start state (k + 2) =
          .ended (.error (.unknownLabel (m.index + 1) (.number .zero)))
            { m with index := m.index + 1, steps := m.steps + 2 } t)) ∧
    ∀ (m : Machine) (side : Side) (target condition : Value) (rest : Deque),
      m.deque = (rest.push side condition).push side target → condition.IsNo →
      m.exec task.program.size (.perform .jumpIf side) =
        .next { m with deque := rest, index := m.index + 1 } := by
  refine ⟨?_, ?_, ?_, ?_⟩
  · intro m v
    rcases m.jumpTo_cases v with ⟨hno, hjump⟩ | ⟨hno, hindex, hjump⟩ | ⟨hno, hindex, n, hn, hjump⟩
    · simp [hno, hjump]
    · simp [hno, hindex, hjump]
    · simp only [hno, hindex, hjump, reduceCtorEq, not_false_eq_true, and_self, and_false,
        true_iff]
      exact ⟨trivial, trivial, n, hn, rfl⟩
  · intro m m' v n s hsize hworth hle hjump
    obtain ⟨hno, hfault⟩ | ⟨hno, hindex, hfault⟩ | ⟨hno, hindex, k, hk, hnext⟩ := m.jumpTo_cases v
    · rw [hfault] at hjump
      cases hjump
    · rw [hfault] at hjump
      cases hjump
    · rw [hworth, Option.some.injEq, Nat.cast_inj] at hk
      rw [hjump, ← hk] at hnext
      cases hnext
      exact next_of_size_le sink s (Nat.le_min.mpr ⟨hle, Nat.le_sub_one_of_lt hsize⟩)
  · intro labels name i hlabels hget hi start m between state t k side token token' hrefer hname
      hjump hword hshown
    exact run_label_jump hlabels hget hi hrefer hname hjump hword hshown
  · intro m side target condition rest hdeque hno
    rw [Machine.exec, Machine.perform, Machine.takeTwo_of_push hdeque,
      Value.isTruthy_eq_false_iff.mpr hno, if_neg Bool.false_ne_true]
    rfl

/-- A jump at the left end leaves what is at the right end, and the label there is at its
    token. -/
theorem jumps_land_left :
    let task : Task := ⟨⟨#["1.", "!end", "!jmp", "9.", "end:"]⟩, {}⟩
    let m : Machine := ⟨Deque.empty.push .right (.number (.ofNat 1)), ⟨[("end", 4)]⟩, 1, 1, none⟩
    task.beginning? (task.run Journal.sink .fresh .empty 1) = some (m, "!end") ∧
      ∃ j, task.run Journal.sink .fresh .empty 3 = .going { m with index := 4, steps := 3 } j := by
  intro task m
  have hrefer : task.beginning? (task.run Journal.sink .fresh .empty 1) = some (m, "!end") := by
    decide +kernel
  have hjump : task.beginning? (task.run Journal.sink .fresh .empty 2) =
      some ({ m with deque := m.deque.push .left (.number (.ofNat 4)), index := 2, steps := 2 },
        "!jmp") := by
    decide +kernel
  have hname : Token.Refers task.config.rule "!end" .left "end" :=
    ⟨by decide +kernel, by decide +kernel, by decide +kernel⟩
  have hword : Token.Asks task.config.rule "!jmp" .jump .left :=
    ⟨by decide +kernel, by decide +kernel⟩
  have hlabels : Labels.ofProgram task.program = .ok m.labels := rfl
  have hget : m.labels.get? "end" = some 4 := by decide +kernel
  have hland := (jumps_land task Journal.sink).2.2.1 m.labels "end" 4 hlabels hget (by decide)
    .fresh m _ .empty _ 1 .left "!end" "!jmp" hrefer hname hjump hword
    (announce_of_untraced _ rfl _ _ _)
  exact ⟨hrefer, _, hland.1 (by decide)⟩

end Task

end DequeMachine

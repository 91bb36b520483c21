/-
  DequeMachine/Proofs/Run/Failure.lean
  ====================================
  **What a fault means, and what it leaves behind.**

  A turn that begins a token can fail in three places.  The event that shows the token may be
  refused, and then nothing was carried out.  The instruction may fail on its own: for want
  of values, of a meaning or of a place to jump to (`Instruction.Fails`, `exec_eq_fail_iff`).  Or
  it offers an event and that is refused (`refused_of_offer`).

  Values that were taken stay gone.  Apart from that and from the count of the steps, the
  machine is as it was, with its index at the token that the fault is about.  So from the
  fault and the deque that is left one can tell what the deque was before, unless it had run
  empty.
-/
import DequeMachine.Proofs.Run.Jump

namespace DequeMachine

variable {σ : Type}

/-! ### Instructions that fail -/

/-- A value leads nowhere, and this is the fault when there is a jump to it. -/
inductive Value.Misleads (v : Value) (index : Nat) : Fault → Prop where
  | no (h : v.IsNo) : Misleads v index (.unknownLabel index v)
  | noIndex (hyes : ¬ v.IsNo) (h : v.IsNoIndex) : Misleads v index (.invalidTarget index v)

theorem Machine.jumpTo_eq_fail_iff {m m' : Machine} {v : Value} {fault : Fault} :
    m.jumpTo v = .fail fault m' ↔ v.Misleads m.index fault ∧ m' = m := by
  constructor
  · intro h
    rcases m.jumpTo_cases v with ⟨hno, hjump⟩ | ⟨hno, hindex, hjump⟩ | ⟨_, _, n, _, hjump⟩
    · rw [hjump] at h
      cases h
      exact ⟨.no hno, rfl⟩
    · rw [hjump] at h
      cases h
      exact ⟨.noIndex hno hindex, rfl⟩
    · rw [hjump] at h
      cases h
  · rintro ⟨hmisleads, rfl⟩
    cases hmisleads with
    | no hno => exact m'.jumpTo_of_isNo hno
    | noIndex hno hindex => exact m'.jumpTo_of_isNoIndex (Value.not_isNo_iff.mp hno) hindex

/-- How an instruction on a deque fails by itself: with this fault, and with this deque left. -/
inductive Instruction.Fails (d : Deque) (index : Nat) : Instruction → Fault → Deque → Prop where
  | starve (word : Mnemonic) (side : Side) (hfew : d.size < word.pops) :
      Fails d index (.perform word side) (.emptyDeque index) .empty
  | unknown (operand : String) :
      Fails d index (.unknown operand) (.unknownToken index operand) d
  | jump (side : Side) (target : Value) (rest : Deque) (fault : Fault)
      (hdeque : d = rest.push side target) (hmisleads : target.Misleads index fault) :
      Fails d index (.perform .jump side) fault rest
  | jumpIf (side : Side) (target condition : Value) (rest : Deque) (fault : Fault)
      (hdeque : d = (rest.push side condition).push side target)
      (hyes : ¬ condition.IsNo) (hmisleads : target.Misleads index fault) :
      Fails d index (.perform .jumpIf side) fault rest

namespace Machine

/-- **An instruction fails in one of these ways, and changes only the deque.** -/
theorem exec_eq_fail_iff {size : Nat} {m m' : Machine} {i : Instruction} {fault : Fault} :
    m.exec size i = .fail fault m' ↔
      i.Fails m.deque m.index fault m'.deque ∧ m' = { m with deque := m'.deque } := by
  constructor
  · intro h
    obtain ⟨act, hdoes, hcomes⟩ := i.exec_does m.deque
    rw [hcomes size m rfl] at h
    cases hdoes with
    | go i deque hsilent => cases h
    | print side v rest hdeque => cases h
    | trace side => cases h
    | halt side => cases h
    | jump side target rest hdeque =>
      obtain ⟨hmisleads, rfl⟩ := jumpTo_eq_fail_iff.mp h
      exact ⟨.jump side target rest fault hdeque hmisleads, rfl⟩
    | jumpIf side target condition rest hdeque hyes =>
      obtain ⟨hmisleads, rfl⟩ := jumpTo_eq_fail_iff.mp h
      exact ⟨.jumpIf side target condition rest fault hdeque (Value.not_isNo_iff.mpr hyes)
        hmisleads, rfl⟩
    | starve word side hfew =>
      cases h
      exact ⟨.starve word side hfew, rfl⟩
    | unknown operand =>
      cases h
      exact ⟨.unknown operand, rfl⟩
  · rintro ⟨hfails, hm'⟩
    generalize m'.deque = left at hfails hm'
    subst hm'
    cases hfails with
    | starve word side hfew => exact perform_of_lt_pops size side hfew
    | unknown operand => rfl
    | jump side target rest fault hdeque hmisleads =>
      rw [exec, perform, take_of_push hdeque]
      exact jumpTo_eq_fail_iff.mpr ⟨hmisleads, rfl⟩
    | jumpIf side target condition rest fault hdeque hyes hmisleads =>
      rw [exec, perform, takeTwo_of_push hdeque, if_pos (Value.not_isNo_iff.mp hyes)]
      exact jumpTo_eq_fail_iff.mpr ⟨hmisleads, rfl⟩

/-- If an event is refused, a value that was to be printed is gone, and all else is there. -/
theorem refused_of_offer {size : Nat} {m accepted refused : Machine} {i : Instruction} {e : Event}
    (h : m.exec size i = .offer e accepted refused) :
    (∃ side v left, i = .perform .print side ∧ e = .print v ∧ m.deque = left.push side v ∧
        refused = { m with deque := left }) ∨
      (i.shows m.deque = some e ∧ (∀ v, e ≠ .print v) ∧ refused = m) := by
  have hyields := exec_yields size m i
  rw [h] at hyields
  cases hyields with
  | exit side hi =>
    rw [hi]
    exact .inr ⟨rfl, nofun, rfl⟩
  | trace side hi =>
    rw [hi]
    exact .inr ⟨rfl, nofun, rfl⟩
  | print side v left hi hpop =>
    exact .inl ⟨side, v, left, hi, rfl, Deque.pop?_eq_some_iff.mp hpop, rfl⟩

theorem exists_exec_eq_offer (size : Nat) {m : Machine} {i : Instruction} {e : Event}
    (hshows : i.shows m.deque = some e) (hother : ∀ v, e ≠ .print v) :
    ∃ accepted, m.exec size i = .offer e accepted m := by
  rw [← event?_exec size m i] at hshows
  cases heffect : m.exec size i with
  | next m' =>
    rw [heffect] at hshows
    cases hshows
  | fail fault m' =>
    rw [heffect] at hshows
    cases hshows
  | offer e' accepted refused =>
    rw [heffect] at hshows
    cases hshows
    rcases refused_of_offer heffect with ⟨side, v, left, _, heq, _⟩ | ⟨_, _, rfl⟩
    · exact absurd heq (hother v)
    · exact ⟨accepted, rfl⟩

end Machine

/-! ### Turns that fail -/

namespace Task

variable {task : Task} {sink : Sink σ}

/-- How a turn fails that begins a token, with the deque and the sink that are left. -/
inductive Fails (task : Task) (sink : Sink σ) (m : Machine) (token : String) (s : σ) :
    Fault → Deque → σ → Prop where
  | unseen (reason : String) (t : σ) (hshown : task.announce sink token m s = .refused reason t) :
      Fails task sink m token s (.output m.index reason) m.deque t
  | own (fault : Fault) (left : Deque) (t : σ)
      (hshown : task.announce sink token m s = .accepted t)
      (hfails : (task.instruction m token).Fails m.deque m.index fault left) :
      Fails task sink m token s fault left t
  | unheard (e : Event) (reason : String) (t t' : σ)
      (hshown : task.announce sink token m s = .accepted t)
      (hshows : (task.instruction m token).shows m.deque = some e) (hother : ∀ v, e ≠ .print v)
      (hrefused : sink.offer t e = .refused reason t') :
      Fails task sink m token s (.output m.index reason) m.deque t'
  | unprinted (side : Side) (v : Value) (left : Deque) (reason : String) (t t' : σ)
      (hshown : task.announce sink token m s = .accepted t)
      (hprint : task.instruction m token = .perform .print side)
      (hdeque : m.deque = left.push side v)
      (hrefused : sink.offer t (.print v) = .refused reason t') :
      Fails task sink m token s (.output m.index reason) left t'

/-- What is carried out in a turn is what the token means before it was counted. -/
theorem begin_eq_settle {m : Machine} {token : String} {s t : σ}
    (hshown : task.announce sink token m s = .accepted t) :
    task.begin sink token m s =
      settle sink (Machine.exec task.program.size { m with steps := m.steps + 1 }
        (task.instruction m token)) t :=
  begin_of_accepted sink hshown

theorem fails_of_begin {m m' : Machine} {token : String} {s s' : σ}
    {result : Except Fault Outcome} (h : task.begin sink token m s = .ended result m' s') :
    ∃ fault left, result = .error fault ∧
      m' = { m with steps := m.steps + 1, deque := left } ∧
      task.Fails sink m token s fault left s' := by
  cases hshown : task.announce sink token m s with
  | refused reason t =>
    rw [begin_of_refused sink hshown] at h
    cases h
    exact ⟨_, m.deque, rfl, rfl, .unseen reason _ hshown⟩
  | accepted t =>
    rw [begin_eq_settle hshown] at h
    cases heffect : Machine.exec task.program.size { m with steps := m.steps + 1 }
        (task.instruction m token) with
    | next m₁ =>
      rw [heffect] at h
      cases h
    | fail fault m₁ =>
      rw [heffect] at h
      cases h
      obtain ⟨hfails, hm'⟩ := Machine.exec_eq_fail_iff.mp heffect
      exact ⟨fault, m'.deque, rfl, hm', .own fault m'.deque _ hshown hfails⟩
    | offer e accepted refused =>
      rw [heffect] at h
      simp only [settle, offer] at h
      split at h
      · cases h
      · rename_i reason t' hrefused
        cases h
        rcases Machine.refused_of_offer heffect with
          ⟨side, v, left, hprint, rfl, hdeque, rfl⟩ | ⟨hshows, hother, rfl⟩
        · exact ⟨_, left, rfl, rfl, .unprinted side v left reason t _ hshown hprint hdeque hrefused⟩
        · exact ⟨_, m.deque, rfl, rfl, .unheard e reason t _ hshown hshows hother hrefused⟩

theorem begin_of_fails {m : Machine} {token : String} {s s' : σ} {fault : Fault} {left : Deque}
    (h : task.Fails sink m token s fault left s') :
    task.begin sink token m s =
      .ended (.error fault) { m with steps := m.steps + 1, deque := left } s' := by
  cases h with
  | unseen reason t hshown => exact begin_of_refused sink hshown
  | own fault left t hshown hfails =>
    have heffect : Machine.exec task.program.size { m with steps := m.steps + 1 }
        (task.instruction m token) = .fail fault { m with steps := m.steps + 1, deque := left } :=
      Machine.exec_eq_fail_iff.mpr ⟨hfails, rfl⟩
    rw [begin_eq_settle hshown, heffect]
    rfl
  | unheard e reason t t' hshown hshows hother hrefused =>
    obtain ⟨accepted, heffect⟩ := Machine.exists_exec_eq_offer task.program.size
      (m := { m with steps := m.steps + 1 }) hshows hother
    rw [begin_eq_settle hshown, heffect, settle, offer, hrefused]
  | unprinted side v left reason t t' hshown hprint hdeque hrefused =>
    rw [begin_eq_settle hshown, hprint, Machine.exec, Machine.perform,
      Machine.take_of_push (m := { m with steps := m.steps + 1 }) hdeque, settle, offer, hrefused]

/-- **A turn that begins a token ends in one of these faults,** or not at all. -/
theorem begin_eq_ended_iff {m m' : Machine} {token : String} {s s' : σ}
    {result : Except Fault Outcome} :
    task.begin sink token m s = .ended result m' s' ↔
      ∃ fault left, result = .error fault ∧
        m' = { m with steps := m.steps + 1, deque := left } ∧
        task.Fails sink m token s fault left s' := by
  constructor
  · exact fails_of_begin
  · rintro ⟨fault, left, rfl, rfl, hfails⟩
    exact begin_of_fails hfails

/-! ### What a fault says -/

section Causes

variable {m : Machine} {token : String} {s s' : σ} {left : Deque} {i : Nat}

theorem Fails.of_emptyDeque (h : task.Fails sink m token s (.emptyDeque i) left s') :
    task.announce sink token m s = .accepted s' ∧
      (∃ word side, Token.Asks task.config.rule token word side ∧ m.deque.size < word.pops) ∧
      left = .empty := by
  cases h with
  | own fault left t hshown hfails =>
    generalize hinstruction : task.instruction m token = i at hfails
    cases hfails with
    | starve word side hfew =>
      exact ⟨hshown, ⟨word, side, Instruction.ofToken_eq_perform_iff.mp hinstruction, hfew⟩, rfl⟩
    | jump side target rest fault hdeque hmisleads => cases hmisleads
    | jumpIf side target condition rest fault hdeque hyes hmisleads => cases hmisleads

theorem Fails.of_unknownToken {operand : String}
    (h : task.Fails sink m token s (.unknownToken i operand) left s') :
    task.announce sink token m s = .accepted s' ∧ task.instruction m token = .unknown operand ∧
      left = m.deque := by
  cases h with
  | own fault left t hshown hfails =>
    generalize hinstruction : task.instruction m token = i at hfails
    cases hfails with
    | unknown operand => exact ⟨hshown, rfl, rfl⟩
    | jump side target rest fault hdeque hmisleads => cases hmisleads
    | jumpIf side target condition rest fault hdeque hyes hmisleads => cases hmisleads

/-- Only a jump that takes place is misled, and it has taken what it looked at. -/
theorem Fails.of_misled {target : Value} {fault : Fault}
    (hfault : fault = .unknownLabel i target ∨ fault = .invalidTarget i target)
    (h : task.Fails sink m token s fault left s') :
    ∃ side, (Token.Asks task.config.rule token .jump side ∧ m.deque = left.push side target) ∨
      ∃ condition, Token.Asks task.config.rule token .jumpIf side ∧ ¬ condition.IsNo ∧
        m.deque = (left.push side condition).push side target := by
  have htarget {v : Value} (hmisleads : v.Misleads m.index fault) : v = target := by
    cases hmisleads <;> simp_all
  cases h with
  | own fault left t hshown hfails =>
    generalize hinstruction : task.instruction m token = i at hfails
    cases hfails with
    | starve word side hfew => simp at hfault
    | unknown operand => simp at hfault
    | jump side v rest fault hdeque hmisleads =>
      obtain rfl := htarget hmisleads
      exact ⟨side, .inl ⟨Instruction.ofToken_eq_perform_iff.mp hinstruction, hdeque⟩⟩
    | jumpIf side v condition rest fault hdeque hyes hmisleads =>
      obtain rfl := htarget hmisleads
      exact ⟨side, .inr
        ⟨condition, Instruction.ofToken_eq_perform_iff.mp hinstruction, hyes, hdeque⟩⟩
  | unseen reason t hshown => simp at hfault
  | unheard e reason t t' hshown hshows hother hrefused => simp at hfault
  | unprinted side v left reason t t' hshown hprint hdeque hrefused => simp at hfault

/-- Only a print whose event is refused has taken a value. -/
theorem Fails.of_output {reason : String}
    (h : task.Fails sink m token s (.output i reason) left s') :
    (task.announce sink token m s = .refused reason s' ∧ left = m.deque) ∨
      ∃ t e, task.announce sink token m s = .accepted t ∧ sink.offer t e = .refused reason s' ∧
        (((∀ v, e ≠ .print v) ∧ left = m.deque) ∨
          ∃ side v, e = .print v ∧ Token.Asks task.config.rule token .print side ∧
            m.deque = left.push side v) := by
  cases h with
  | unseen reason t hshown => exact .inl ⟨hshown, rfl⟩
  | own fault left t hshown hfails =>
    generalize task.instruction m token = i at hfails
    cases hfails with
    | jump side target rest fault hdeque hmisleads => cases hmisleads
    | jumpIf side target condition rest fault hdeque hyes hmisleads => cases hmisleads
  | unheard e reason t t' hshown hshows hother hrefused =>
    exact .inr ⟨t, e, hshown, hrefused, .inl ⟨hother, rfl⟩⟩
  | unprinted side v left reason t t' hshown hprint hdeque hrefused =>
    exact .inr ⟨t, .print v, hshown, hrefused,
      .inr ⟨side, v, rfl, Instruction.ofToken_eq_perform_iff.mp hprint, hdeque⟩⟩

end Causes

section Turn

variable {run : Run σ} {m : Machine} {token : String}
  (hbegin : task.beginning? run = some (m, token))
include hbegin

theorem fails_of_next {fault : Fault} {m' : Machine} {s' : σ}
    (h : task.next sink run = .ended (.error fault) m' s') :
    task.Fails sink m token run.state fault m'.deque s' := by
  rw [next_of_beginning? sink hbegin] at h
  obtain ⟨_, left, heq, rfl, hfails⟩ := begin_eq_ended_iff.mp h
  cases heq
  exact hfails

theorem exists_next_of_fails {i : Instruction} {fault : Fault} {left : Deque} {t : σ}
    (hshown : task.announce sink token m run.state = .accepted t)
    (hinstruction : task.instruction m token = i) (h : i.Fails m.deque m.index fault left) :
    ∃ m' s', task.next sink run = .ended (.error fault) m' s' := by
  subst hinstruction
  rw [next_of_beginning? sink hbegin]
  exact ⟨_, _, begin_of_fails (.own fault left t hshown h)⟩

end Turn

/-- **A fault tells what went wrong and what was taken.** -/
theorem fault_tells_cause {run : Run σ} {m : Machine} {token : String}
    (hbegin : task.beginning? run = some (m, token)) :
    (∀ result m' s', task.next sink run = .ended result m' s' →
      m.index < task.program.size ∧ m' = { m with steps := m.steps + 1, deque := m'.deque } ∧
      ∃ fault, result = .error fault ∧ fault.index? = some m.index) ∧
    ((∃ i m' s', task.next sink run = .ended (.error (.emptyDeque i)) m' s') ↔
      (∃ t, task.announce sink token m run.state = .accepted t) ∧
      ∃ word side, Token.Asks task.config.rule token word side ∧ m.deque.size < word.pops) ∧
    (∀ i m' s', task.next sink run = .ended (.error (.emptyDeque i)) m' s' →
      m'.deque = .empty) ∧
    (∀ operand, (∃ i m' s', task.next sink run = .ended (.error (.unknownToken i operand)) m' s') ↔
      (∃ t, task.announce sink token m run.state = .accepted t) ∧
      (Token.decode task.config.rule token).operand = operand ∧ operand ≠ "" ∧
        Mnemonic.ofName? operand = none ∧ (Token.decode task.config.rule token).isLabel = false ∧
        Number.read? operand = none ∧ m.labels.get? operand = none) ∧
    (∀ i operand m' s', task.next sink run = .ended (.error (.unknownToken i operand)) m' s' →
      m'.deque = m.deque) ∧
    (∀ i target fault m' s', fault = .unknownLabel i target ∨ fault = .invalidTarget i target →
      task.next sink run = .ended (.error fault) m' s' →
      ∃ side, (Token.Asks task.config.rule token .jump side ∧
          m.deque = m'.deque.push side target) ∨
        ∃ condition, Token.Asks task.config.rule token .jumpIf side ∧ ¬ condition.IsNo ∧
          m.deque = (m'.deque.push side condition).push side target) ∧
    (∀ i reason m' s', task.next sink run = .ended (.error (.output i reason)) m' s' →
      (task.announce sink token m run.state = .refused reason s' ∧ m'.deque = m.deque) ∨
      ∃ t e, task.announce sink token m run.state = .accepted t ∧
        sink.offer t e = .refused reason s' ∧
        (((∀ v, e ≠ .print v) ∧ m'.deque = m.deque) ∨
          ∃ side v, e = .print v ∧ Token.Asks task.config.rule token .print side ∧
            m.deque = m'.deque.push side v)) := by
  refine ⟨?_, ⟨?_, ?_⟩, ?_, fun operand => ⟨?_, ?_⟩, ?_, ?_, ?_⟩
  · intro result m' s' h
    have hinside : m.index < task.program.size := by
      obtain ⟨_, htoken, _⟩ := beginning?_eq_some_iff.mp hbegin
      exact Program.lt_size_of_get? htoken
    rw [next_of_beginning? sink hbegin] at h
    obtain ⟨fault, hresult, hstops⟩ := stopsAt_of_begin sink h
    obtain ⟨_, left, _, rfl, _⟩ := begin_eq_ended_iff.mp h
    exact ⟨hinside, rfl, fault, hresult, hstops.index?_eq⟩
  · rintro ⟨i, m', s', h⟩
    obtain ⟨hshown, hfew, _⟩ := (fails_of_next hbegin h).of_emptyDeque
    exact ⟨⟨_, hshown⟩, hfew⟩
  · rintro ⟨⟨t, hshown⟩, word, side, hword, hfew⟩
    have hinstruction : task.instruction m token = .perform word side :=
      Instruction.ofToken_eq_perform_iff.mpr hword
    exact ⟨m.index, exists_next_of_fails hbegin hshown hinstruction (.starve word side hfew)⟩
  · intro i m' s' h
    exact (fails_of_next hbegin h).of_emptyDeque.2.2
  · rintro ⟨i, m', s', h⟩
    obtain ⟨hshown, hunknown, _⟩ := (fails_of_next hbegin h).of_unknownToken
    exact ⟨⟨_, hshown⟩, Instruction.ofDecoded_eq_unknown_iff.mp hunknown⟩
  · rintro ⟨⟨t, hshown⟩, hunknown⟩
    have hinstruction : task.instruction m token = .unknown operand :=
      Instruction.ofDecoded_eq_unknown_iff.mpr hunknown
    exact ⟨m.index, exists_next_of_fails hbegin hshown hinstruction (.unknown operand)⟩
  · intro i operand m' s' h
    exact (fails_of_next hbegin h).of_unknownToken.2.2
  · intro i target fault m' s' hfault h
    exact (fails_of_next hbegin h).of_misled hfault
  · intro i reason m' s' h
    exact (fails_of_next hbegin h).of_output

/-- One value is not enough to swap, and it is gone. -/
theorem fault_tells_cause_swap :
    let task : Task := ⟨⟨#["1.", "swap."]⟩, { trace := true }⟩
    let m : Machine := ⟨Deque.empty.push .right (.number (.ofNat 1)), .empty, 1, 1, none⟩
    task.beginning? (task.run Journal.sink .fresh .empty 1) = some (m, "swap.") ∧
      ∃ j, task.run Journal.sink .fresh .empty 2 =
        .ended (.error (.emptyDeque 1)) { m with deque := .empty, steps := 2 } j := by
  intro task m
  have hbegin : task.beginning? (task.run Journal.sink .fresh .empty 1) = some (m, "swap.") := by
    decide +kernel
  have hword : Token.Asks task.config.rule "swap." .swap .right :=
    ⟨by decide +kernel, by decide +kernel⟩
  have hfew : m.deque.size < Mnemonic.swap.pops := by decide +kernel
  obtain ⟨hleaves, hstarve, hempty, _⟩ := @fault_tells_cause _ task Journal.sink _ _ _ hbegin
  obtain ⟨i, m', j, hend⟩ := hstarve.mpr ⟨⟨_, rfl⟩, .swap, .right, hword, hfew⟩
  obtain ⟨_, hm', fault, hfault, hindex⟩ := hleaves _ _ _ hend
  cases hfault
  cases hindex
  rw [hempty _ _ _ hend] at hm'
  rw [hm'] at hend
  exact ⟨hbegin, j, (task.run_succ Journal.sink .fresh .empty 1).trans hend⟩

end Task

end DequeMachine

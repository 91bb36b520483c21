/-
  DequeMachine/Proofs/Run/Basic.lean
  ==================================
  **Runs, turn by turn.**

  A run goes forward in turns (`Task.next`), and each turn either begins one
  instruction or ends the run for want of one.  `Task.beginning?` says which of the
  two it is, by looking at the run alone; `Task.begun` counts the instructions that
  were begun; and the count that the machine keeps is that number, on top of what
  it was before (`steps_run`).  A token that is begun is announced first, if the steps are
  traced, and is carried out only if that is not refused (`Task.announce`).

  What may come of an instruction on its own is said once (`exec_yields`).  It changes the
  deque, the index and the halt, and offers no event that shows a step.  All that is said
  about turns rests on this and not on the instructions one by one.
-/
import DequeMachine.Proofs.Machine
import DequeMachine.Run

namespace DequeMachine

variable {σ : Type}

/-! ### Looking at a run -/

namespace Run

def machine : Run σ → Machine
  | .going m _ => m
  | .ended _ m _ => m

def state : Run σ → σ
  | .going _ s => s
  | .ended _ _ s => s

@[simp] theorem machine_going (m : Machine) (s : σ) : (going m s).machine = m := rfl

@[simp] theorem machine_ended (result : Except Fault Outcome) (m : Machine) (s : σ) :
    (ended result m s).machine = m := rfl

@[simp] theorem state_going (m : Machine) (s : σ) : (going m s).state = s := rfl

@[simp] theorem state_ended (result : Except Fault Outcome) (m : Machine) (s : σ) :
    (ended result m s).state = s := rfl

end Run

/-! ### What comes of an instruction -/

namespace Effect

/-- Do all machines that may come of an effect have a property? -/
def Leaves (p : Machine → Prop) : Effect → Prop
  | .next m => p m
  | .offer _ accepted refused => p accepted ∧ p refused
  | .fail _ m => p m

def event? : Effect → Option Event
  | .offer e _ _ => some e
  | _ => none

end Effect

/-- The index of the token that a fault is about. -/
def Fault.index? : Fault → Option Nat
  | .duplicateLabel index _ | .emptyDeque index | .unknownToken index _
  | .unknownLabel index _ | .invalidTarget index _ | .output index _ => some index
  | .stepLimit _ => none

/-- A fault is about the token at an index while that token is carried out.  Labels are
    no longer defined by then. -/
structure Fault.StopsAt (fault : Fault) (index : Nat) : Prop where
  index?_eq : fault.index? = some index
  ne_duplicateLabel : ∀ i name, fault ≠ .duplicateLabel i name

namespace Machine

/-- What may come of an instruction, in a program of so many tokens.  The deque and the index
    change as they may, and the halt only on request.  Three instructions offer an event.  A value
    that is to be printed has left the deque by then, and is gone even if the event is
    refused.  A fault is about the token at the index and leaves the index alone. -/
inductive Yields (size : Nat) (m : Machine) (i : Instruction) : Effect → Prop where
  | next (deque : Deque) (index : Nat) (hsilent : i.shows m.deque = none) :
      Yields size m i (.next { m with deque, index })
  | exit (side : Side) (hi : i = .perform .exit side) :
      Yields size m i
        (.offer (.exit m.deque.toList) { m with halt := some .exit, index := size + 1 } m)
  | trace (side : Side) (hi : i = .perform .trace side) :
      Yields size m i (.offer (.trace m.deque.toList) m.advance m)
  | print (side : Side) (v : Value) (deque : Deque) (hi : i = .perform .print side)
      (hpop : m.deque.pop? side = some (v, deque)) :
      Yields size m i
        (.offer (.print v) ({ m with deque } : Machine).advance { m with deque })
  | fault (fault : Fault) (deque : Deque) (hsilent : i.shows m.deque = none)
      (hstops : fault.StopsAt m.index) : Yields size m i (.fail fault { m with deque })

/-- **What comes of an instruction.** -/
theorem exec_yields (size : Nat) (m : Machine) (i : Instruction) :
    m.Yields size i (m.exec size i) := by
  obtain ⟨act, hdoes, hcomes⟩ := i.exec_does m.deque
  have hjump : ∀ target rest, i.shows m.deque = none →
      m.Yields size i (({ m with deque := rest } : Machine).jumpTo target) := by
    intro target rest hsilent
    unfold jumpTo
    split
    · split
      · exact .next rest _ hsilent
      · exact .fault _ rest hsilent ⟨rfl, nofun⟩
    · exact .fault _ rest hsilent ⟨rfl, nofun⟩
  rw [hcomes size m rfl]
  cases hdoes with
  | go i deque hsilent => exact .next deque _ hsilent
  | print side v rest hdeque => exact .print side v rest rfl (Deque.pop?_eq_some_iff.mpr hdeque)
  | trace side => exact .trace side rfl
  | halt side => exact .exit side rfl
  | jump side target rest hdeque => exact hjump target rest rfl
  | jumpIf side target condition rest hdeque hyes => exact hjump target rest rfl
  | starve word side hfew =>
    exact .fault _ .empty (Instruction.shows_of_lt_pops side hfew) ⟨rfl, nofun⟩
  | unknown operand => exact .fault _ m.deque rfl ⟨rfl, nofun⟩

/-- **An instruction changes nothing but the deque, the index and the halt.** -/
theorem exec_leaves {p : Machine → Prop} {m : Machine} (size : Nat) (i : Instruction)
    (hp : ∀ deque index halt, p { m with deque, index, halt }) : (m.exec size i).Leaves p := by
  have hyields := exec_yields size m i
  generalize m.exec size i = effect at hyields ⊢
  cases hyields with
  | next deque index => exact hp deque index m.halt
  | exit side hi => exact ⟨hp m.deque _ _, hp m.deque m.index m.halt⟩
  | trace side hi => exact ⟨hp m.deque _ m.halt, hp m.deque m.index m.halt⟩
  | print side v deque hi hpop => exact ⟨hp deque _ m.halt, hp deque m.index m.halt⟩
  | fault fault deque hindex => exact hp deque m.index m.halt

/-- **Only three instructions offer an event, and the deque tells which.** -/
theorem event?_exec (size : Nat) (m : Machine) (i : Instruction) :
    (m.exec size i).event? = i.shows m.deque := by
  have hyields := exec_yields size m i
  generalize m.exec size i = effect at hyields ⊢
  cases hyields with
  | next deque index hsilent => exact hsilent.symm
  | exit side hi => rw [hi, Instruction.shows, Effect.event?]
  | trace side hi => rw [hi, Instruction.shows, Effect.event?]
  | print side v deque hi hpop => rw [hi, Instruction.shows, hpop, Effect.event?, Option.map_some]
  | fault fault deque hsilent hstops => exact hsilent.symm

theorem index_of_refused {size : Nat} {m : Machine} {i : Instruction} {e : Event}
    {accepted refused : Machine} (h : m.exec size i = .offer e accepted refused) :
    refused.index = m.index := by
  have hyields := exec_yields size m i
  rw [h] at hyields
  cases hyields with
  | exit side hi => rfl
  | trace side hi => rfl
  | print side v deque hi hpop => rfl

theorem stopsAt_of_fail {size : Nat} {m m' : Machine} {i : Instruction} {fault : Fault}
    (h : m.exec size i = .fail fault m') : fault.StopsAt m.index := by
  have hyields := exec_yields size m i
  rw [h] at hyields
  cases hyields with
  | fault fault deque hsilent hstops => exact hstops

end Machine

/-- What an instruction offers never belongs to the trace of steps. -/
theorem Instruction.isStep_of_shows {i : Instruction} {d : Deque} {e : Event}
    (h : i.shows d = some e) : e.isStep = false := by
  unfold shows at h
  split at h
  · cases h
    rfl
  · cases h
    rfl
  · obtain ⟨p, _, rfl⟩ := Option.map_eq_some_iff.mp h
    rfl
  · cases h

namespace Program

variable {p : Program} {index : Nat}

theorem get?_eq_none (h : p.size ≤ index) : p.get? index = none := Array.getElem?_eq_none h

theorem lt_size_of_get? {token : String} (h : p.get? index = some token) : index < p.size :=
  (Array.getElem?_eq_some_iff.mp h).1

theorem mem_of_get? {token : String} (h : p.get? index = some token) :
    token ∈ p.tokens.toList :=
  List.mem_of_getElem? (Array.getElem?_toList.trans h)

end Program

/-! ### Turns -/

namespace Task

section Turns

variable (task : Task) (sink : Sink σ)

/-- The machine and the token of the instruction that a run is about to begin, if
    it is not at its end and not about to come there. -/
def beginning? : Run σ → Option (Machine × String)
  | .ended .. => none
  | .going m _ =>
    match task.program.get? m.index, task.limitReached? m with
    | some token, none => some (m, token)
    | _, _ => none

variable {task}

theorem beginning?_eq_some_iff {run : Run σ} {m : Machine} {token : String} :
    task.beginning? run = some (m, token) ↔
      (∃ s, run = .going m s) ∧ task.program.get? m.index = some token ∧
        task.limitReached? m = none := by
  cases run with
  | ended result m' s => simp [beginning?]
  | going m' s =>
    simp only [beginning?, Run.going.injEq]
    constructor
    · intro h
      split at h
      · rename_i token' htoken hlimit
        cases h
        exact ⟨⟨s, rfl, rfl⟩, htoken, hlimit⟩
      · cases h
    · rintro ⟨⟨_, rfl, _⟩, htoken, hlimit⟩
      rw [htoken, hlimit]

theorem limitReached?_of_free (h : task.config.maxSteps = none) (m : Machine) :
    task.limitReached? m = none := by
  rw [limitReached?, h, Option.filter_none]

theorem next_going {m : Machine} {token : String} (s : σ)
    (htoken : task.program.get? m.index = some token) (hlimit : task.limitReached? m = none) :
    task.next sink (.going m s) = task.begin sink token m s := by
  simp only [next, htoken, hlimit]

/-- At the end of the program the run ends by itself. -/
theorem next_of_size_le {m : Machine} (s : σ) (h : task.program.size ≤ m.index) :
    task.next sink (.going m s) = .ended (.ok m.outcome) m s := by
  simp only [next, Program.get?_eq_none h]

theorem next_limitReached {m : Machine} {token : String} {limit : Nat} (s : σ)
    (htoken : task.program.get? m.index = some token)
    (hlimit : task.limitReached? m = some limit) :
    task.next sink (.going m s) = .ended (.error (.stepLimit limit)) m s := by
  simp only [next, htoken, hlimit]

/-- A turn that begins no instruction leaves the run at its end, with the machine
    and the sink as they were. -/
theorem exists_next_eq_ended {run : Run σ} (h : task.beginning? run = none) :
    ∃ result, task.next sink run = .ended result run.machine run.state := by
  cases run with
  | ended result m s => exact ⟨result, rfl⟩
  | going m s =>
    simp only [next]
    split
    · exact ⟨_, rfl⟩
    · rename_i token htoken
      split
      · exact ⟨_, rfl⟩
      · rename_i hlimit
        rw [beginning?_eq_some_iff.mpr ⟨⟨s, rfl⟩, htoken, hlimit⟩] at h
        cases h

/-- The answer to the event that shows a token before it is carried out.  If the steps are
    not traced there is no such event, and nothing to refuse. -/
def announce (token : String) (m : Machine) (s : σ) : Reply σ :=
  if task.config.trace then sink.offer s (.step m.index token m.deque.toList) else .accepted s

theorem announce_of_untraced (h : task.config.trace = false) (token : String) (m : Machine)
    (s : σ) : task.announce sink token m s = .accepted s := by
  rw [announce, h, if_neg Bool.false_ne_true]

theorem begin_of_accepted {token : String} {m : Machine} {s t : σ}
    (h : task.announce sink token m s = .accepted t) :
    task.begin sink token m s = task.carryOut sink token { m with steps := m.steps + 1 } t := by
  unfold announce at h
  split at h
  · rename_i htrace
    simp only [begin, if_pos htrace, offer, h]
  · rename_i htrace
    cases h
    simp only [begin, if_neg htrace]

theorem begin_of_refused {token reason : String} {m : Machine} {s t : σ}
    (h : task.announce sink token m s = .refused reason t) :
    task.begin sink token m s =
      .ended (.error (.output m.index reason)) { m with steps := m.steps + 1 } t := by
  unfold announce at h
  split at h
  · rename_i htrace
    simp only [begin, if_pos htrace, offer, h]
  · cases h

theorem next_of_beginning? {run : Run σ} {m : Machine} {token : String}
    (h : task.beginning? run = some (m, token)) :
    task.next sink run = task.begin sink token m run.state := by
  obtain ⟨⟨s, rfl⟩, htoken, hlimit⟩ := beginning?_eq_some_iff.mp h
  exact next_going sink s htoken hlimit

/-! ### How a turn ends a run -/

theorem exists_of_offer_eq_ended {e : Event} {s s' : σ} {refused m' : Machine} {go : σ → Run σ}
    {result : Except Fault Outcome} (h : offer sink e s refused go = .ended result m' s') :
    (∃ reason, result = .error (.output refused.index reason)) ∨
      ∃ t, go t = .ended result m' s' := by
  unfold offer at h
  split at h
  · exact .inr ⟨_, h⟩
  · cases h
    exact .inl ⟨_, rfl⟩

theorem stopsAt_of_settle {size : Nat} {m m' : Machine} {i : Instruction} {s s' : σ}
    {result : Except Fault Outcome}
    (h : settle sink (m.exec size i) s = .ended result m' s') :
    ∃ fault : Fault, result = .error fault ∧ fault.StopsAt m.index := by
  cases heffect : m.exec size i with
  | next m₁ =>
    rw [heffect] at h
    cases h
  | offer e accepted refused =>
    rw [heffect] at h
    rcases exists_of_offer_eq_ended sink h with ⟨reason, rfl⟩ | ⟨t, ht⟩
    · exact ⟨_, rfl, congrArg some (Machine.index_of_refused heffect), nofun⟩
    · cases ht
  | fail fault m₁ =>
    rw [heffect] at h
    cases h
    exact ⟨fault, rfl, Machine.stopsAt_of_fail heffect⟩

/-- **A turn that begins an instruction ends the run only by a fault about its token.** -/
theorem stopsAt_of_begin {token : String} {m m' : Machine} {s s' : σ}
    {result : Except Fault Outcome} (h : task.begin sink token m s = .ended result m' s') :
    ∃ fault : Fault, result = .error fault ∧ fault.StopsAt m.index := by
  cases hshown : task.announce sink token m s with
  | accepted t =>
    rw [begin_of_accepted sink hshown] at h
    exact stopsAt_of_settle (m := { m with steps := m.steps + 1 }) sink h
  | refused reason t =>
    rw [begin_of_refused sink hshown] at h
    cases h
    exact ⟨_, rfl, rfl, nofun⟩

/-! ### The count of steps -/

theorem settle_leaves {p : Machine → Prop} {effect : Effect} (h : effect.Leaves p) (s : σ) :
    p (settle sink effect s).machine := by
  cases effect with
  | next m => exact h
  | fail fault m => exact h
  | offer e accepted refused =>
    simp only [settle, offer]
    split
    · exact h.1
    · exact h.2

/-- An instruction that was begun was counted, and changes nothing else but the
    deque, the index and the halt. -/
theorem begin_leaves {p : Machine → Prop} {m : Machine} (token : String) (s : σ)
    (hp : ∀ deque index halt, p { m with steps := m.steps + 1, deque, index, halt }) :
    p (task.begin sink token m s).machine := by
  cases hshown : task.announce sink token m s with
  | accepted t =>
    rw [begin_of_accepted sink hshown]
    exact settle_leaves sink (Machine.exec_leaves _ _ hp) t
  | refused reason t =>
    rw [begin_of_refused sink hshown]
    exact hp m.deque m.index m.halt

/-- A turn counts one step if it begins an instruction, and none otherwise. -/
theorem steps_next (run : Run σ) :
    (task.next sink run).machine.steps =
      run.machine.steps + if (task.beginning? run).isSome then 1 else 0 := by
  rcases hbegin : task.beginning? run with _ | ⟨m, token⟩
  · obtain ⟨result, hnext⟩ := exists_next_eq_ended sink hbegin
    rw [hnext]
    rfl
  · obtain ⟨⟨s, rfl⟩, htoken, hlimit⟩ := beginning?_eq_some_iff.mp hbegin
    rw [next_going sink s htoken hlimit]
    exact begin_leaves (p := fun m' => m'.steps = m.steps + 1) sink token s fun _ _ _ => rfl

end Turns

/-! ### Runs from their start -/

def run (task : Task) (sink : Sink σ) (m : Machine) (state : σ) (turns : Nat) : Run σ :=
  task.after sink turns (task.start m state)

/-- How many instructions a run begins in so many turns. -/
def begun (task : Task) (sink : Sink σ) (m : Machine) (state : σ) (turns : Nat) : Nat :=
  (List.range turns).countP fun i => (task.beginning? (task.run sink m state i)).isSome

variable (task : Task) (sink : Sink σ)

@[simp] theorem after_ended (n : Nat) (result : Except Fault Outcome) (m : Machine) (s : σ) :
    task.after sink n (.ended result m s) = .ended result m s := by
  cases n <;> rfl

theorem after_succ (n : Nat) (run : Run σ) :
    task.after sink (n + 1) run = task.next sink (task.after sink n run) := by
  induction n generalizing run with
  | zero => cases run <;> rfl
  | succ n ih =>
    cases run with
    | ended result m s => simp [next]
    | going m s => exact ih (task.next sink (.going m s))

variable (m : Machine) (state : σ)

@[simp] theorem run_zero : task.run sink m state 0 = task.start m state := by
  cases h : task.start m state <;> simp [run, h, after]

theorem run_succ (n : Nat) :
    task.run sink m state (n + 1) = task.next sink (task.run sink m state n) :=
  task.after_succ sink n _

theorem run_of_ended {n k : Nat} {result : Except Fault Outcome} {m' : Machine} {s : σ}
    (h : task.run sink m state n = .ended result m' s) (hle : n ≤ k) :
    task.run sink m state k = .ended result m' s := by
  induction hle with
  | refl => exact h
  | step _ ih => rw [run_succ, ih, next]

/-- If the labels cannot be collected, the run has ended before its first turn. -/
theorem run_of_labels_error {fault : Fault} (h : Labels.ofProgram task.program = .error fault)
    (n : Nat) : task.run sink m state n = .ended (.error fault) m state := by
  have hstart : task.run sink m state 0 = .ended (.error fault) m state := by
    rw [run_zero, start, h]
  exact task.run_of_ended sink m state hstart (Nat.zero_le n)

theorem execute?_eq_some_iff {n : Nat} {result : Except Fault Outcome} {m' : Machine} {s : σ} :
    task.execute? sink n m state = some (result, m', s) ↔
      task.run sink m state n = .ended result m' s := by
  unfold execute? run
  split
  · rename_i heq
    simp [heq]
  · rename_i heq
    simp [heq]

theorem execute?_of_labels_error {fault : Fault}
    (h : Labels.ofProgram task.program = .error fault) (n : Nat) :
    task.execute? sink n m state = some (.error fault, m, state) := by
  rw [execute?_eq_some_iff]
  exact task.run_of_labels_error sink m state h n

theorem execute?_eq_none_iff {n : Nat} :
    task.execute? sink n m state = none ↔ ∃ m' s, task.run sink m state n = .going m' s := by
  unfold execute? run
  split
  · rename_i heq
    simp [heq]
  · rename_i heq
    simp [heq]

theorem steps_start : (task.start m state).machine.steps = m.steps := by
  unfold start
  split <;> rfl

theorem begun_succ (n : Nat) :
    task.begun sink m state (n + 1) = task.begun sink m state n +
      if (task.beginning? (task.run sink m state n)).isSome then 1 else 0 := by
  rw [begun, List.range_succ, List.countP_append, List.countP_singleton, begun]

/-- **The machine counts the instructions that were begun.** -/
theorem steps_run (n : Nat) :
    (task.run sink m state n).machine.steps = m.steps + task.begun sink m state n := by
  induction n with
  | zero =>
    rw [run_zero]
    exact task.steps_start m state
  | succ n ih => rw [run_succ, steps_next, ih, begun_succ, Nat.add_assoc]

/-- The machine carries the labels of its program along. -/
theorem labels_run {labels : Labels} (h : Labels.ofProgram task.program = .ok labels) (n : Nat) :
    (task.run sink m state n).machine.labels = labels := by
  induction n with
  | zero => rw [run_zero, start, h, Run.machine_going]
  | succ n ih =>
    rw [run_succ]
    rcases hbegin : task.beginning? (task.run sink m state n) with _ | ⟨m', token⟩
    · obtain ⟨result, hnext⟩ := exists_next_eq_ended sink hbegin
      rw [hnext, Run.machine_ended, ih]
    · obtain ⟨⟨s, hgoing⟩, _, _⟩ := beginning?_eq_some_iff.mp hbegin
      rw [hgoing, Run.machine_going] at ih
      rw [next_of_beginning? sink hbegin]
      exact begin_leaves (p := fun m' => m'.labels = labels) sink token _ fun _ _ _ => ih

theorem begun_mono {n k : Nat} (hle : n ≤ k) :
    task.begun sink m state n ≤ task.begun sink m state k := by
  induction hle with
  | refl => exact Nat.le_refl _
  | step _ ih =>
    rw [begun_succ]
    exact Nat.le_add_right_of_le ih

/-- Once no instruction is begun, none will be. -/
theorem begun_of_beginning?_eq_none {n k : Nat}
    (h : task.beginning? (task.run sink m state n) = none) (hle : n ≤ k) :
    task.begun sink m state k = task.begun sink m state n := by
  rcases Nat.eq_or_lt_of_le hle with rfl | hlt
  · rfl
  · obtain ⟨result, hnext⟩ := exists_next_eq_ended sink h
    rw [← run_succ] at hnext
    have hend := task.run_of_ended sink m state hnext hlt
    have hn := task.steps_run sink m state n
    have hk := task.steps_run sink m state k
    rw [hend, Run.machine_ended, hn] at hk
    exact (Nat.add_left_cancel hk).symm

theorem exists_beginning?_of_going {n : Nat} {m' : Machine} {s : σ}
    (h : task.run sink m state (n + 1) = .going m' s) :
    ∃ m₀ token, task.beginning? (task.run sink m state n) = some (m₀, token) := by
  rcases hbegin : task.beginning? (task.run sink m state n) with _ | ⟨m₀, token⟩
  · obtain ⟨result, hnext⟩ := exists_next_eq_ended sink hbegin
    rw [run_succ, hnext] at h
    cases h
  · exact ⟨m₀, token, rfl⟩

/-- A run that is still going has begun an instruction in every turn. -/
theorem begun_of_going {n : Nat} {m' : Machine} {s : σ}
    (h : task.run sink m state n = .going m' s) : task.begun sink m state n = n := by
  induction n generalizing m' s with
  | zero => rfl
  | succ n ih =>
    obtain ⟨m₀, token, hbegin⟩ := task.exists_beginning?_of_going sink m state h
    obtain ⟨⟨s₀, hgoing⟩, _, _⟩ := beginning?_eq_some_iff.mp hbegin
    rw [begun_succ, ih hgoing, hbegin]
    rfl

theorem begun_le (n : Nat) : task.begun sink m state n ≤ n := by
  calc task.begun sink m state n
      ≤ (List.range n).length := List.countP_le_length
    _ = n := List.length_range

end Task

end DequeMachine

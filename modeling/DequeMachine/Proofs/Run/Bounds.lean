/-
  DequeMachine/Proofs/Run/Bounds.lean
  ===================================
  **A run takes no more room than it takes steps.**

  An instruction puts at most one value more on the deque than it takes from there
  (`exec_size_le`), and it offers at most one event, besides the one that shows it.  A sink may
  refuse an event, but it was offered nevertheless, and so this is counted with a sink that
  writes down all it is offered (`Sink.overheard`).

  So the steps that were begun pay for the values that are there and for the events of either
  kind (`PaidFor`).  Every turn keeps this (`next_paidFor`), however it ends, and since a new
  run starts with the deque and the count of the one before, so do any number of runs on one
  machine.
-/
import DequeMachine.Proofs.Run.Resume

namespace DequeMachine

variable {σ : Type}

/-! ### How much an instruction adds to the deque -/

namespace Machine

variable {m : Machine} {p : Machine → Prop}

theorem take_leaves {side : Side} {go : Value → Machine → Effect} (hnone : p m)
    (hgo : ∀ v rest, m.deque = Deque.push rest side v → (go v { m with deque := rest }).Leaves p) :
    (m.take side go).Leaves p := by
  unfold take
  split
  · rename_i v rest hpop
    exact hgo v rest (Deque.pop?_eq_some_iff.mp hpop)
  · exact hnone

theorem jumpTo_leaves (target : Value) (h : ∀ index, p { m with index }) :
    (m.jumpTo target).Leaves p := by
  unfold jumpTo
  split
  · split
    · exact h _
    · exact h m.index
  · exact h m.index

theorem takeTwo_leaves_size {side : Side} {n : Nat} {go : Value → Value → Machine → Effect}
    (hn : m.deque.size ≤ n)
    (hgo : ∀ v w (m' : Machine), m'.deque.size + 2 = m.deque.size →
      (go v w m').Leaves (·.deque.size ≤ n)) :
    (m.takeTwo side go).Leaves (·.deque.size ≤ n) := by
  refine take_leaves hn fun v left hleft => take_leaves ?_ fun w rest hrest => ?_
  · simp only [hleft, Deque.size_push] at hn ⊢
    omega
  · apply hgo
    simp only at hrest
    simp [hleft, hrest]

/-- **No instruction leaves more than one value more than there were.** -/
theorem exec_size_le (size : Nat) (m : Machine) (i : Instruction) :
    (m.exec size i).Leaves (·.deque.size ≤ m.deque.size + 1) := by
  have hsame : m.deque.size ≤ m.deque.size + 1 := Nat.le_succ _
  cases i with
  | skip => exact hsame
  | unknown operand => exact hsame
  | push side x => simp [exec, Effect.Leaves, advance, give]
  | perform word side =>
    unfold exec perform
    cases word with
    | exit => exact ⟨hsame, hsame⟩
    | trace => exact ⟨hsame, hsame⟩
    | drop =>
      refine take_leaves hsame fun v rest hdeque => ?_
      simp [Effect.Leaves, advance, hdeque, Nat.add_assoc]
    | print =>
      refine take_leaves hsame fun v rest hdeque => ?_
      simp [Effect.Leaves, advance, hdeque, Nat.add_assoc]
    | jump =>
      refine take_leaves hsame fun target rest hdeque => jumpTo_leaves target fun index => ?_
      simp [hdeque, Nat.add_assoc]
    | jumpIf =>
      refine takeTwo_leaves_size hsame fun target condition m' hsize => ?_
      split
      · exact jumpTo_leaves target fun index => by simp only; omega
      · simp only [Effect.Leaves, advance]
        omega
    | operator op =>
      refine takeTwo_leaves_size hsame fun v w m' hsize => ?_
      simp only [Effect.Leaves, advance, give, Deque.size_push]
      omega
    | swap =>
      refine takeTwo_leaves_size hsame fun v w m' hsize => ?_
      simp only [Effect.Leaves, advance, give, Deque.size_push]
      omega
    | move =>
      refine take_leaves hsame fun v rest hdeque => ?_
      simp [Effect.Leaves, advance, give, hdeque]
    | «over» =>
      refine takeTwo_leaves_size hsame fun v w m' hsize => ?_
      simp only [Effect.Leaves, advance, give, Deque.size_push]
      omega
    | dup =>
      refine take_leaves hsame fun v rest hdeque => ?_
      simp [Effect.Leaves, advance, give, hdeque]

end Machine

/-! ### What a sink is offered -/

/-- The sink with a record of all events that it was offered, refused or not. -/
def Sink.overheard (sink : Sink σ) : Sink (σ × List Event) where
  offer s e :=
    match sink.offer s.1 e with
    | .accepted t => .accepted (t, s.2 ++ [e])
    | .refused reason t => .refused reason (t, s.2 ++ [e])

/-- Whatever the sink answers, the event is on record. -/
theorem Sink.overheard_cases (sink : Sink σ) (s : σ × List Event) (e : Event) :
    (∃ t, sink.offer s.1 e = .accepted t ∧ sink.overheard.offer s e = .accepted (t, s.2 ++ [e])) ∨
      ∃ reason t, sink.offer s.1 e = .refused reason t ∧
        sink.overheard.offer s e = .refused reason (t, s.2 ++ [e]) := by
  simp only [overheard]
  cases sink.offer s.1 e with
  | accepted t => exact .inl ⟨t, rfl, rfl⟩
  | refused reason t => exact .inr ⟨reason, t, rfl, rfl⟩

namespace Task

section Offers

variable (task : Task) (sink : Sink σ) (m : Machine) (s : σ) (before : List Event) (n : Nat)

/-- The events that the sink is offered in so many turns of a run. -/
def offers (turns : Nat) : List Event :=
  (task.run sink.overheard m (s, []) turns).state.2

/-- **Listening changes nothing,** whatever was heard before. -/
theorem run_overheard :
    Run.Alike (fun t u => t.1 = u) (task.run sink.overheard m (s, before) n)
      (task.run sink m s n) := by
  refine task.run_alike ?_ m (by exact rfl) n
  rintro t _ e rfl
  rcases sink.overheard_cases t e with ⟨u, hoffer, hheard⟩ | ⟨reason, u, hoffer, hheard⟩
  · rw [hoffer, hheard]
    exact .accepted rfl
  · rw [hoffer, hheard]
    exact .refused rfl

theorem record_overheard :
    (task.run sink.overheard m (s, before) n).state.2 = before ++ task.offers sink m s n := by
  have halike : Run.Alike (fun t u : σ × List Event => t = (u.1, before ++ u.2))
      (task.run sink.overheard m (s, before) n) (task.run sink.overheard m (s, []) n) := by
    refine task.run_alike ?_ m (by simp) n
    rintro _ u e rfl
    simp only [Sink.overheard]
    cases sink.offer u.1 e with
    | accepted t => exact .accepted (by simp)
    | refused reason t => exact .refused (by simp)
  rw [halike.state_rel, offers]

end Offers

end Task

/-! ### Steps that pay -/

/-- There are no more values, no more events that show a step and no more other events than
    steps. -/
structure PaidFor (m : Machine) (offered : List Event) : Prop where
  values : m.deque.size ≤ m.steps
  announced : offered.countP Event.isStep ≤ m.steps
  others : offered.countP (!·.isStep) ≤ m.steps

namespace Task

section Turns

variable (task : Task) (sink : Sink σ)

/-- Of what is offered, only the first event may show a step. -/
theorem exists_announce_overheard (token : String) (m : Machine) (s : σ × List Event) :
    ∃ t : σ × List Event,
      (task.announce sink.overheard token m s = .accepted t ∨
        ∃ reason, task.announce sink.overheard token m s = .refused reason t) ∧
      t.2.countP Event.isStep ≤ s.2.countP Event.isStep + 1 ∧
      t.2.countP (!·.isStep) = s.2.countP (!·.isStep) := by
  unfold announce
  split
  · rcases sink.overheard_cases s (.step m.index token m.deque.toList) with
      ⟨t, _, hheard⟩ | ⟨reason, t, _, hheard⟩
    · exact ⟨_, .inl hheard, by simp [Event.isStep]⟩
    · exact ⟨_, .inr ⟨reason, hheard⟩, by simp [Event.isStep]⟩
  · exact ⟨s, .inl rfl, Nat.le_succ _, rfl⟩

/-- An instruction offers what it shows, and the sink hears it. -/
theorem record_settle_overheard (size : Nat) (m : Machine) (i : Instruction)
    (s : σ × List Event) :
    (settle sink.overheard (m.exec size i) s).state.2 = s.2 ++ (i.shows m.deque).toList := by
  rw [← Machine.event?_exec size m i]
  cases m.exec size i with
  | next m' => simp [settle, Effect.event?]
  | fail fault m' => simp [settle, Effect.event?]
  | offer e accepted refused =>
    rcases sink.overheard_cases s e with ⟨t, _, hheard⟩ | ⟨reason, t, _, hheard⟩
    · simp [settle, offer, hheard, Effect.event?]
    · simp [settle, offer, hheard, Effect.event?]

theorem countP_shows (i : Instruction) (d : Deque) :
    (i.shows d).toList.countP Event.isStep = 0 ∧ (i.shows d).toList.countP (!·.isStep) ≤ 1 := by
  cases hshows : i.shows d with
  | none => simp
  | some e => simp [Instruction.isStep_of_shows hshows]

/-- **The step of an instruction pays for all that comes of it.** -/
theorem begin_paidFor (token : String) {m : Machine} {s : σ × List Event} (h : PaidFor m s.2) :
    PaidFor (task.begin sink.overheard token m s).machine
      (task.begin sink.overheard token m s).state.2 := by
  obtain ⟨t, hreply | ⟨reason, hreply⟩, hannounced, hothers⟩ :=
    task.exists_announce_overheard sink token m s
  · -- the instruction runs on a machine that has its step on the count already
    rw [begin_of_accepted sink.overheard hreply, carryOut]
    generalize hcounted : { m with steps := m.steps + 1 } = counted
    have hsteps := settle_leaves (p := (·.steps = counted.steps)) sink.overheard
      (counted.exec_leaves task.program.size (task.instruction counted token) fun _ _ _ => rfl) t
    have hsize := settle_leaves (p := (·.deque.size ≤ counted.deque.size + 1)) sink.overheard
      (counted.exec_size_le task.program.size (task.instruction counted token)) t
    obtain ⟨hstep, hother⟩ := countP_shows (task.instruction counted token) counted.deque
    subst hcounted
    obtain ⟨hvalues, hannounced', hothers'⟩ := h
    constructor
    · rw [hsteps]
      exact Nat.le_trans hsize (Nat.succ_le_succ hvalues)
    · rw [hsteps, record_settle_overheard, List.countP_append, hstep]
      exact Nat.le_trans hannounced (Nat.succ_le_succ hannounced')
    · rw [hsteps, record_settle_overheard, List.countP_append, hothers]
      exact Nat.add_le_add hothers' hother
  · -- nothing but the event that shows the step was offered, and the step is on the count
    rw [begin_of_refused sink.overheard hreply]
    exact ⟨Nat.le_succ_of_le h.values, Nat.le_trans hannounced (Nat.succ_le_succ h.announced),
      hothers ▸ Nat.le_succ_of_le h.others⟩

theorem next_paidFor {run : Run (σ × List Event)} (h : PaidFor run.machine run.state.2) :
    PaidFor (task.next sink.overheard run).machine (task.next sink.overheard run).state.2 := by
  cases hbegin : task.beginning? run with
  | none =>
    obtain ⟨result, hnext⟩ := exists_next_eq_ended sink.overheard hbegin
    rwa [hnext]
  | some begun =>
    obtain ⟨⟨s, rfl⟩, _, _⟩ := beginning?_eq_some_iff.mp hbegin
    rw [next_of_beginning? sink.overheard hbegin]
    exact task.begin_paidFor sink begun.2 h

theorem run_paidFor {m : Machine} {offered : List Event} (h : PaidFor m offered) (s : σ) (n : Nat) :
    PaidFor (task.run sink m s n).machine (offered ++ task.offers sink m s n) := by
  rw [← (task.run_overheard sink m s offered n).machine_eq, ← task.record_overheard]
  induction n with
  | zero =>
    rw [run_zero]
    unfold start
    split
    · exact ⟨h.values, h.announced, h.others⟩
    · exact h
  | succ n ih =>
    rw [run_succ]
    exact task.next_paidFor sink ih

end Turns

/-! ### One run after another -/

/-- A machine and a sink after some runs of a task, whatever these came to, with all events
    that the sink was offered. -/
inductive Offered (task : Task) (sink : Sink σ) (first : σ) : Machine → σ → List Event → Prop where
  | fresh : Offered task sink first .fresh first []
  | again {m m' : Machine} {s s' : σ} {n : Nat} {offered : List Event}
      {result : Except Fault Outcome} (h : Offered task sink first m s offered)
      (hend : task.execute? sink n m s = some (result, m', s')) :
      Offered task sink first m' s' (offered ++ task.offers sink m s n)

namespace Offered

variable {task : Task} {sink : Sink σ} {first s : σ} {m : Machine} {offered : List Event}

theorem exists_used (h : task.Offered sink first m s offered) :
    ∃ count shown, task.Used sink first m s count shown := by
  induction h with
  | fresh => exact ⟨0, [], .fresh⟩
  | again h hend ih =>
    obtain ⟨count, shown, hused⟩ := ih
    exact ⟨_, _, hused.again hend⟩

theorem paidFor (h : task.Offered sink first m s offered) : PaidFor m offered := by
  induction h with
  | fresh => exact ⟨Nat.le_refl 0, Nat.le_refl 0, Nat.le_refl 0⟩
  | @again m m' s s' n offered result h hend ih =>
    have hrun := task.run_paidFor sink ih s n
    rwa [(task.execute?_eq_some_iff sink m s).mp hend] at hrun

end Offered

/-- **A run takes no more room than it takes steps.**  After any runs of a task on one machine,
    whatever they came to and whatever the sink has refused, and after any number of turns of the
    next run, there are at most as many values on the deque as steps were begun.  Nor was the
    sink offered more events that show a step, or more other events, than that.  So a limit on
    the steps is a limit on the values, and twice the limit is one on the events. -/
theorem steps_pay {task : Task} {sink : Sink σ} {first s : σ} {m : Machine} {offered : List Event}
    (h : task.Offered sink first m s offered) :
    PaidFor m offered ∧
    (∀ n, PaidFor (task.run sink m s n).machine (offered ++ task.offers sink m s n)) ∧
    ∀ limit, task.config.maxSteps = some limit →
      ∀ n, (task.run sink m s n).machine.deque.size ≤ limit ∧
        (offered ++ task.offers sink m s n).length ≤ 2 * limit := by
  have hrun := task.run_paidFor sink h.paidFor s
  refine ⟨h.paidFor, hrun, ?_⟩
  intro limit hlimit n
  obtain ⟨count, shown, hused⟩ := h.exists_used
  have hsteps : (task.run sink m s n).machine.steps ≤ limit := by
    have hle := task.steps_run_le limit sink m s (hused.steps_le hlimit) n
    rwa [withLimit_eq_self hlimit] at hle
  obtain ⟨hvalues, hannounced, hothers⟩ := hrun n
  refine ⟨Nat.le_trans hvalues hsteps, ?_⟩
  have hlength := (offered ++ task.offers sink m s n).length_eq_countP_add_countP Event.isStep
  have hsame : ∀ e : Event, decide (¬ e.isStep = true) = !e.isStep := by
    intro e
    cases e.isStep <;> rfl
  simp only [hsame] at hlength
  omega

/-- The first run ends with a refused event, the second one by itself, and the third one on the
    limit. -/
theorem steps_pay_refused :
    let task : Task := ⟨⟨#["1.", "trace."]⟩, { trace := true, maxSteps := some 5 }⟩
    let sink := Journal.sinkRefusing 2 "closed"
    ∃ m j offered, task.Offered sink .empty m j offered ∧ m.steps = 4 ∧ offered.length = 6 ∧
      (task.run sink m j 2).machine.deque.size = 3 ∧
      (task.run sink m j 2).machine.deque.size ≤ 5 ∧
      (offered ++ task.offers sink m j 2).length ≤ 2 * 5 := by
  intro task sink
  let one : Value := .number (.ofNat 1)
  let kept : Array Event := #[.step 0 "1." [], .step 1 "trace." [one]]
  let d : Deque := Deque.empty.push .right one
  let m₁ : Machine := ⟨d, .empty, 1, 2, none⟩
  let j₁ : Journal := ⟨3, kept⟩
  let m₂ : Machine := ⟨d.push .right one, .empty, 2, 4, none⟩
  let j₂ : Journal :=
    ⟨6, kept ++ #[.step 0 "1." [one], .step 1 "trace." [one, one], .trace [one, one]]⟩
  have hfirst : (task.execute? sink 2 .fresh .empty).map Prod.snd = some (m₁, j₁) := by
    decide +kernel
  have hsecond : (task.execute? sink 3 m₁ j₁).map Prod.snd = some (m₂, j₂) := by
    decide +kernel
  obtain ⟨⟨result₁, _, _⟩, hend₁, ⟨⟩⟩ := Option.map_eq_some_iff.mp hfirst
  obtain ⟨⟨result₂, _, _⟩, hend₂, ⟨⟩⟩ := Option.map_eq_some_iff.mp hsecond
  have hoffered := (Offered.fresh.again hend₁).again hend₂
  obtain ⟨_, _, hlimit⟩ := steps_pay hoffered
  exact ⟨m₂, j₂, _, hoffered, rfl, by decide +kernel, by decide +kernel, hlimit 5 rfl 2⟩

end Task

end DequeMachine

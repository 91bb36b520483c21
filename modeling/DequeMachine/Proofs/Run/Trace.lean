/-
  DequeMachine/Proofs/Run/Trace.lean
  ==================================
  **Tracing the steps observes a run and does not interfere with it.**

  The same task is run with the steps traced and without.  If the first sink accepts
  every event of the trace of steps and both sinks answer all other events alike, the
  two runs are at the same place after every turn (`run_withTrace_alike`).  A sink
  that accepts everything is one case of this; lines on two channels are another, as
  long as there is room for the steps.

  What a turn shows is known beforehand: the step, if steps are traced, and then what
  the instruction shows by itself (`Task.shown`).  The record of a run is what its
  turns have shown, one after another (`events_eq_flatMap`).
-/
import DequeMachine.Proofs.Run.Record
import DequeMachine.Channel

namespace DequeMachine

variable {σ τ : Type}

/-- In good states a sink accepts whatever it is offered, and its state stays good. -/
def Sink.Accepts (sink : Sink σ) (good : σ → Prop) : Prop :=
  ∀ s e, good s → ∃ t, sink.offer s e = .accepted t ∧ good t

namespace Task

/-- The task with its steps traced, or not. -/
def withTrace (task : Task) (trace : Bool) : Task :=
  { task with config := { task.config with trace } }

/-! ### A traced run beside a plain one -/

section Simulation

variable (task : Task) {R : σ → τ → Prop} {sink : Sink σ} {sink' : Sink τ}
  (hstep : ∀ s t e, R s t → e.isStep = true → ∃ s', sink.offer s e = .accepted s' ∧ R s' t)
  (hother : ∀ s t e, R s t → e.isStep = false →
    Reply.Alike R (sink.offer s e) (sink'.offer t e))
include hstep hother

theorem begin_withTrace_alike (token : String) (m : Machine) {s : σ} {t : τ} (h : R s t) :
    Run.Alike R ((task.withTrace true).begin sink token m s)
      ((task.withTrace false).begin sink' token m t) := by
  have hcarry : ∀ s, R s t →
      Run.Alike R ((task.withTrace true).carryOut sink token { m with steps := m.steps + 1 } s)
        ((task.withTrace false).carryOut sink' token { m with steps := m.steps + 1 } t) := by
    intro s h
    refine settle_alike h fun e he => hother s t e h ?_
    rw [Machine.event?_exec] at he
    exact Instruction.isStep_of_shows he
  obtain ⟨s', haccept, h'⟩ := hstep s t (.step m.index token m.deque.toList) h rfl
  have htraced : (task.withTrace true).begin sink token m s =
      (task.withTrace true).carryOut sink token { m with steps := m.steps + 1 } s' := by
    simp only [begin, withTrace, offer, haccept, if_true]
  rw [htraced]
  exact hcarry s' h'

theorem next_withTrace_alike {a : Run σ} {b : Run τ} (h : Run.Alike R a b) :
    Run.Alike R ((task.withTrace true).next sink a) ((task.withTrace false).next sink' b) := by
  cases h with
  | ended h => exact .ended h
  | @going m s t h =>
    rcases htoken : task.program.get? m.index with _ | token
    · have hend : ∀ trace, (task.withTrace trace).program.get? m.index = none := by
        intro _
        exact htoken
      simp only [next, hend]
      exact .ended h
    · have htoken' : ∀ trace, (task.withTrace trace).program.get? m.index = some token := by
        intro _
        exact htoken
      rcases hlimit : task.limitReached? m with _ | limit
      · rw [next_going sink s (htoken' true) hlimit, next_going sink' t (htoken' false) hlimit]
        exact task.begin_withTrace_alike hstep hother token m h
      · rw [next_limitReached sink s (htoken' true) hlimit,
          next_limitReached sink' t (htoken' false) hlimit]
        exact .ended h

/-- **The traced run and the plain run are at the same place after every turn.** -/
theorem run_withTrace_alike (m : Machine) {s : σ} {t : τ} (h : R s t) (n : Nat) :
    Run.Alike R ((task.withTrace true).run sink m s n)
      ((task.withTrace false).run sink' m t n) := by
  induction n with
  | zero =>
    rw [run_zero, run_zero]
    exact task.start_alike m h
  | succ n ih =>
    rw [run_succ, run_succ]
    exact task.next_withTrace_alike hstep hother ih

end Simulation

/-! ### What a turn shows -/

/-- What a turn shows if everything is accepted: the instruction that is begun, with its
    index, its token and the values as they are before it, if the steps are traced; and
    then what the instruction shows by itself. -/
def shown (task : Task) (run : Run σ) : List Event :=
  match task.beginning? run with
  | none => []
  | some (m, token) =>
    let own := ((task.instruction m token).shows m.deque).toList
    if task.config.trace then .step m.index token m.deque.toList :: own else own

section Shown

variable (task : Task)

theorem shown_alike {R : σ → τ → Prop} {a : Run σ} {b : Run τ} (h : Run.Alike R a b) :
    task.shown a = task.shown b := by
  simp only [shown, task.beginning?_alike h]

theorem isStep_of_mem_shows {i : Instruction} {d : Deque} {e : Event}
    (h : e ∈ (i.shows d).toList) : e.isStep = false :=
  Instruction.isStep_of_shows (Option.mem_toList.mp h)

variable {run : Run σ} {m : Machine} {token : String}

theorem shown_eq_nil (h : task.beginning? run = none) : task.shown run = [] := by
  simp only [shown, h]

theorem shown_nothing (trace : Bool) (h : task.beginning? run = none) :
    (task.withTrace trace).shown run = [] :=
  shown_eq_nil (task.withTrace trace) h

theorem shown_traced (h : task.beginning? run = some (m, token)) :
    (task.withTrace true).shown run =
      .step m.index token m.deque.toList :: ((task.instruction m token).shows m.deque).toList := by
  have hbegin : (task.withTrace true).beginning? run = some (m, token) := h
  simp only [shown, hbegin]
  rfl

theorem shown_plain (h : task.beginning? run = some (m, token)) :
    (task.withTrace false).shown run = ((task.instruction m token).shows m.deque).toList := by
  have hbegin : (task.withTrace false).beginning? run = some (m, token) := h
  simp only [shown, hbegin]
  rfl

theorem filter_shown_traced (run : Run σ) :
    ((task.withTrace true).shown run).filter (!·.isStep) = (task.withTrace false).shown run := by
  rcases hbegin : task.beginning? run with _ | ⟨m, token⟩
  · rw [shown_nothing task true hbegin, shown_nothing task false hbegin, List.filter_nil]
  · rw [shown_traced task hbegin, shown_plain task hbegin,
      List.filter_cons_of_neg Bool.false_ne_true]
    apply List.filter_eq_self.mpr
    intro e he
    rw [isStep_of_mem_shows he]
    rfl

theorem countP_shown_traced (run : Run σ) :
    ((task.withTrace true).shown run).countP Event.isStep =
      if ((task.withTrace true).beginning? run).isSome then 1 else 0 := by
  rcases hbegin : (task.withTrace true).beginning? run with _ | ⟨m, token⟩
  · rw [shown_nothing task true hbegin]
    rfl
  · have hown : ((task.instruction m token).shows m.deque).toList.countP Event.isStep = 0 := by
      apply List.countP_eq_zero.mpr
      intro e he
      rw [isStep_of_mem_shows he]
      exact Bool.false_ne_true
    rw [shown_traced task hbegin, List.countP_cons, hown]
    rfl

end Shown

/-! ### What a run shows -/

section Accepting

variable (task : Task) {sink : Sink σ} {good : σ → Prop} (haccepts : sink.Accepts good)
include haccepts

theorem exists_recorded_offer {s : σ × List Event} (e : Event) (h : good s.1) :
    ∃ t, sink.recorded.offer s e = .accepted (t, s.2 ++ [e]) ∧ good t := by
  obtain ⟨t, haccept, ht⟩ := haccepts s.1 e h
  refine ⟨t, ?_, ht⟩
  simp only [Sink.recorded, haccept]

theorem record_settle (effect : Effect) {s : σ × List Event} (h : good s.1) :
    (settle sink.recorded effect s).state.2 = s.2 ++ effect.event?.toList := by
  cases effect with
  | next m => exact (List.append_nil _).symm
  | fail fault m => exact (List.append_nil _).symm
  | offer e accepted refused =>
    obtain ⟨t, haccept, _⟩ := exists_recorded_offer haccepts e h
    simp only [settle, offer, haccept]
    rfl

theorem record_carryOut (token : String) (m : Machine) {s : σ × List Event} (h : good s.1) :
    (task.carryOut sink.recorded token m s).state.2 =
      s.2 ++ ((task.instruction m token).shows m.deque).toList := by
  rw [carryOut, record_settle haccepts _ h, Machine.event?_exec]

/-- **A turn shows what it was known to show.** -/
theorem record_next {run : Run (σ × List Event)} (h : good run.state.1) :
    (task.next sink.recorded run).state.2 = run.state.2 ++ task.shown run := by
  unfold shown
  rcases hbegin : task.beginning? run with _ | ⟨m, token⟩
  · obtain ⟨result, hnext⟩ := exists_next_eq_ended sink.recorded hbegin
    rw [hnext]
    exact (List.append_nil _).symm
  · obtain ⟨⟨s, rfl⟩, htoken, hlimit⟩ := beginning?_eq_some_iff.mp hbegin
    rw [next_going sink.recorded s htoken hlimit]
    replace h : good s.1 := h
    by_cases htrace : task.config.trace = true
    · obtain ⟨t, haccept, ht⟩ :=
        exists_recorded_offer haccepts (.step m.index token m.deque.toList) h
      simp only [begin, if_pos htrace, offer, haccept]
      refine (task.record_carryOut haccepts token _ ht).trans ?_
      rw [List.append_assoc]
      rfl
    · simp only [begin, if_neg htrace]
      exact task.record_carryOut haccepts token _ h

variable (m : Machine) {state : σ} (hstate : good state)
include hstate

theorem good_run (n : Nat) : good (task.run sink m state n).state := by
  have hself : ∀ s t e, good s ∧ s = t →
      Reply.Alike (fun s t => good s ∧ s = t) (sink.offer s e) (sink.offer t e) := by
    rintro s _ e ⟨hs, rfl⟩
    obtain ⟨t, haccept, ht⟩ := haccepts s e hs
    rw [haccept]
    exact .accepted ⟨ht, rfl⟩
  exact (task.run_alike hself m ⟨hstate, rfl⟩ n).state_rel.1

theorem events_succ (n : Nat) :
    task.events sink m state (n + 1) =
      task.events sink m state n ++ task.shown (task.run sink m state n) := by
  have halike := task.run_recorded sink m state n
  have hgood : good (task.run sink.recorded m (state, []) n).state.1 :=
    halike.state_rel ▸ task.good_run haccepts m hstate n
  rw [events, run_succ, task.record_next haccepts hgood, task.shown_alike halike, events]

/-- **A run shows what its turns show, one after another.** -/
theorem events_eq_flatMap (n : Nat) :
    task.events sink m state n =
      (List.range n).flatMap fun i => task.shown (task.run sink m state i) := by
  induction n with
  | zero =>
    rw [events, run_zero]
    unfold start
    split <;> rfl
  | succ n ih =>
    rw [task.events_succ haccepts m hstate n, ih, List.range_succ, List.flatMap_append,
      List.flatMap_singleton]

theorem countP_events_traced (n : Nat) :
    ((task.withTrace true).events sink m state n).countP Event.isStep =
      (task.withTrace true).begun sink m state n := by
  induction n with
  | zero =>
    rw [events_eq_flatMap _ haccepts m hstate]
    rfl
  | succ n ih =>
    rw [events_succ _ haccepts m hstate, List.countP_append, ih, countP_shown_traced, begun_succ]

end Accepting

end Task

/-! ### Lines -/

theorem Channel.write_of_roomy {c : Channel} (h : c.capacity = none) (text : String) :
    (c.write text).2 = true ∧ (c.write text).1.capacity = none := by
  obtain ⟨capacity, bytes⟩ := c
  subst h
  exact ⟨beq_self_eq_true _, rfl⟩

namespace Lines

/-- The same output, with room for the steps on the first side. -/
structure SameOutput (a b : Lines) : Prop where
  out_eq : a.out = b.out
  roomy : a.debug.capacity = none

theorem exists_offer_step {a b : Lines} {e : Event} (h : SameOutput a b) (he : e.isStep = true) :
    ∃ a', sink.offer a e = .accepted a' ∧ SameOutput a' b := by
  obtain ⟨hwhole, hroomy⟩ := Channel.write_of_roomy h.roomy (e.line ++ "\n")
  refine ⟨⟨a.out, (a.debug.write (e.line ++ "\n")).1⟩, ?_, ⟨h.out_eq, hroomy⟩⟩
  simp only [sink, write, if_pos he, hwhole, if_true]

theorem offer_alike {a b : Lines} {e : Event} (h : SameOutput a b) (he : e.isStep = false) :
    Reply.Alike SameOutput (sink.offer a e) (sink.offer b e) := by
  obtain ⟨out, debug⟩ := a
  obtain ⟨out', debug'⟩ := b
  obtain ⟨rfl, hroomy⟩ := h
  simp only [sink, write, he, Bool.false_eq_true, if_false]
  split
  · exact .accepted ⟨rfl, hroomy⟩
  · exact .refused ⟨rfl, hroomy⟩

end Lines

/-! ### Tracing does not interfere -/

namespace Task

variable (task : Task)

theorem run_withTrace_lines (m : Machine) (out : Channel) (n : Nat) :
    Run.Alike Lines.SameOutput
      ((task.withTrace true).run Lines.sink m ⟨out, .ofCapacity none⟩ n)
      ((task.withTrace false).run Lines.sink m ⟨out, .ofCapacity none⟩ n) :=
  task.run_withTrace_alike (fun _ _ _ h he => Lines.exists_offer_step h he)
    (fun _ _ _ h he => Lines.offer_alike h he) m ⟨rfl, rfl⟩ n

theorem run_withTrace_accepting {sink : Sink σ} {good : σ → Prop} (haccepts : sink.Accepts good)
    (m : Machine) {state : σ} (hstate : good state) (n : Nat) :
    Run.Alike (fun s t => good s ∧ good t) ((task.withTrace true).run sink m state n)
      ((task.withTrace false).run sink m state n) := by
  refine task.run_withTrace_alike ?_ ?_ m ⟨hstate, hstate⟩ n
  · rintro s t e ⟨hs, ht⟩ _
    obtain ⟨s', haccept, hs'⟩ := haccepts s e hs
    exact ⟨s', haccept, hs', ht⟩
  · rintro s t e ⟨hs, ht⟩ _
    obtain ⟨s', haccept, hs'⟩ := haccepts s e hs
    obtain ⟨t', haccept', ht'⟩ := haccepts t e ht
    rw [haccept, haccept']
    exact .accepted ⟨hs', ht'⟩

/-- **Tracing the steps observes a run and does not interfere with it.**  With a sink that
    accepts every event, the traced run comes to the same result with the same machine, and
    shows the same events apart from the steps.  It shows one step for each instruction that
    is begun, in front of what that instruction shows, with the index, the token and the
    values as they are before it.  And the bytes that go to the output do not depend on the
    tracing, as long as the channel for the steps has no limit. -/
theorem trace_observes (task : Task) {sink : Sink σ} {good : σ → Prop}
    (haccepts : sink.Accepts good) (m : Machine) {state : σ} (hstate : good state) (n : Nat) :
    let traced := task.withTrace true
    let plain := task.withTrace false
    (traced.execute? sink n m state).map (fun (result, m, _) => (result, m)) =
        (plain.execute? sink n m state).map (fun (result, m, _) => (result, m)) ∧
      (traced.events sink m state n).filter (!·.isStep) = plain.events sink m state n ∧
      (traced.events sink m state n).countP Event.isStep = traced.begun sink m state n ∧
      (traced.events sink m state n =
        (List.range n).flatMap fun i =>
          match traced.beginning? (traced.run sink m state i) with
          | none => []
          | some (before, token) =>
            .step before.index token before.deque.toList ::
              ((traced.instruction before token).shows before.deque).toList) ∧
      (∀ i before token, traced.beginning? (traced.run sink m state i) = some (before, token) →
        task.program.get? before.index = some token) ∧
      ∀ out : Channel,
        (traced.run Lines.sink m ⟨out, .ofCapacity none⟩ n).state.out =
            (plain.run Lines.sink m ⟨out, .ofCapacity none⟩ n).state.out ∧
          (traced.execute? Lines.sink n m ⟨out, .ofCapacity none⟩).map
              (fun (result, m, lines) => (result, m, lines.out)) =
            (plain.execute? Lines.sink n m ⟨out, .ofCapacity none⟩).map
              (fun (result, m, lines) => (result, m, lines.out)) := by
  intro traced plain
  have halike := task.run_withTrace_accepting haccepts m hstate
  refine ⟨?result, ?events, ?count, ?order, ?tokens, ?lines⟩
  case result => exact execute?_alike _ (halike n) fun _ _ _ _ _ => rfl
  case events =>
    have hturn : ∀ i, (traced.shown (traced.run sink m state i)).filter (!·.isStep) =
        plain.shown (plain.run sink m state i) := by
      intro i
      rw [filter_shown_traced, shown_alike _ (halike i)]
    rw [events_eq_flatMap _ haccepts m hstate, events_eq_flatMap _ haccepts m hstate,
      List.filter_flatMap, funext hturn]
  case count => exact task.countP_events_traced haccepts m hstate n
  case order => exact traced.events_eq_flatMap haccepts m hstate n
  case tokens =>
    intro i before token hbegin
    exact (beginning?_eq_some_iff.mp hbegin).2.1
  case lines =>
    intro out
    have hlines := task.run_withTrace_lines m out n
    refine ⟨hlines.state_rel.out_eq, execute?_alike _ hlines fun result m a b h => ?_⟩
    simp only [h.out_eq]

/-- A program that shows a value and then fails has three steps in its trace, the last of
    them for the instruction that fails. -/
theorem trace_observes_failure :
    let traced : Task := ⟨⟨#["1.", "print.", "drop."]⟩, { trace := true }⟩
    let plain : Task := ⟨⟨#["1.", "print.", "drop."]⟩, {}⟩
    Journal.sink.Accepts (fun _ => True) ∧
      (traced.execute? Journal.sink 3 .fresh .empty).map (fun (result, m, _) => (result, m)) =
        (plain.execute? Journal.sink 3 .fresh .empty).map (fun (result, m, _) => (result, m)) ∧
      (traced.events Journal.sink .fresh .empty 3).countP Event.isStep = 3 ∧
      (traced.events Journal.sink .fresh .empty 3).filter (!·.isStep) =
        plain.events Journal.sink .fresh .empty 3 := by
  intro traced plain
  have haccepts : Journal.sink.Accepts (fun _ => True) := fun _ _ _ => ⟨_, rfl, trivial⟩
  obtain ⟨hresult, hevents, hcount, _⟩ := trace_observes plain haccepts .fresh trivial 3
  refine ⟨haccepts, hresult, hcount.trans ?_, hevents⟩
  decide +kernel

end Task

end DequeMachine

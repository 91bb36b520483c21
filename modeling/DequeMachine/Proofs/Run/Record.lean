/-
  DequeMachine/Proofs/Run/Record.lean
  ===================================
  **Runs side by side, and the record of what was shown.**

  Two runs are alike up to a relation between the states of their sinks when they
  are at the same place with the same machine (`Run.Alike`).  Whatever the sinks
  are, runs of one task that start alike stay alike as long as the sinks answer
  alike (`run_alike`).

  The first use of this is a sink that keeps a record.  `Sink.recorded` answers like
  the sink it is made of and writes down each event that was accepted; forgetting
  the record gives the run as it would have been without (`run_recorded`).  So
  `Task.events`, the record of a run, is what the run has shown.
-/
import DequeMachine.Proofs.Run.Basic

namespace DequeMachine

variable {σ τ : Type}

/-! ### Alike up to the sinks -/

/-- Two answers are the same, with related states to go on from. -/
inductive Reply.Alike (R : σ → τ → Prop) : Reply σ → Reply τ → Prop where
  | accepted {s : σ} {t : τ} (h : R s t) : Alike R (.accepted s) (.accepted t)
  | refused {reason : String} {s : σ} {t : τ} (h : R s t) :
      Alike R (.refused reason s) (.refused reason t)

/-- Two runs are at the same place, with related states of their sinks. -/
inductive Run.Alike (R : σ → τ → Prop) : Run σ → Run τ → Prop where
  | going {m : Machine} {s : σ} {t : τ} (h : R s t) : Alike R (.going m s) (.going m t)
  | ended {result : Except Fault Outcome} {m : Machine} {s : σ} {t : τ} (h : R s t) :
      Alike R (.ended result m s) (.ended result m t)

namespace Run

variable {R : σ → τ → Prop} {a : Run σ} {b : Run τ}

theorem Alike.state_rel (h : Alike R a b) : R a.state b.state := by
  cases h with
  | going h => exact h
  | ended h => exact h

theorem Alike.machine_eq (h : Alike R a b) : a.machine = b.machine := by
  cases h <;> rfl

theorem Alike.with_states (h : Alike R a b) :
    Alike (fun s t => R s t ∧ s = a.state ∧ t = b.state) a b := by
  cases h with
  | going h => exact .going ⟨h, rfl, rfl⟩
  | ended h => exact .ended ⟨h, rfl, rfl⟩

theorem Alike.eq {a b : Run σ} (h : Alike Eq a b) : a = b := by
  cases h with
  | going h => rw [h]
  | ended h => rw [h]

/-- How a run has ended, if it has. -/
def ending? : Run σ → Option (Except Fault Outcome × Machine × σ)
  | .going .. => none
  | .ended result m s => some (result, m, s)

theorem Alike.map_ending? {ρ : Type} (h : Alike R a b)
    {f : Except Fault Outcome × Machine × σ → ρ} {g : Except Fault Outcome × Machine × τ → ρ}
    (hfg : ∀ result m s t, R s t → f (result, m, s) = g (result, m, t)) :
    a.ending?.map f = b.ending?.map g := by
  cases h with
  | going h => rfl
  | ended h => exact congrArg some (hfg _ _ _ _ h)

end Run

theorem Task.execute?_eq_ending? (task : Task) (sink : Sink σ) (n : Nat) (m : Machine) (s : σ) :
    task.execute? sink n m s = (task.run sink m s n).ending? := by
  unfold execute? run
  split
  · rename_i heq
    rw [heq, Run.ending?]
  · rename_i heq
    rw [heq, Run.ending?]

theorem Reply.alike_refl (reply : Reply σ) : Reply.Alike Eq reply reply := by
  cases reply with
  | accepted s => exact .accepted rfl
  | refused reason s => exact .refused rfl

namespace Task

section Turns

variable {R : σ → τ → Prop} {sink : Sink σ} {sink' : Sink τ} (task : Task)

theorem start_alike (m : Machine) {s : σ} {t : τ} (h : R s t) :
    Run.Alike R (task.start m s) (task.start m t) := by
  unfold start
  split
  · exact .going h
  · exact .ended h

/-- Which instruction is begun does not depend on the sink. -/
theorem beginning?_alike {a : Run σ} {b : Run τ} (h : Run.Alike R a b) :
    task.beginning? a = task.beginning? b := by
  cases h <;> rfl

theorem offer_alike {e e' : Event} {refused : Machine} {s : σ} {t : τ}
    {go : σ → Run σ} {go' : τ → Run τ} (hreply : Reply.Alike R (sink.offer s e) (sink'.offer t e'))
    (hgo : ∀ s t, R s t → Run.Alike R (go s) (go' t)) :
    Run.Alike R (offer sink e s refused go) (offer sink' e' t refused go') := by
  unfold offer
  generalize sink.offer s e = reply at hreply
  generalize sink'.offer t e' = reply' at hreply
  cases hreply with
  | accepted h => exact hgo _ _ h
  | refused h => exact .ended h

theorem settle_alike {effect : Effect} {s : σ} {t : τ} (h : R s t)
    (hreply : ∀ e, effect.event? = some e → Reply.Alike R (sink.offer s e) (sink'.offer t e)) :
    Run.Alike R (settle sink effect s) (settle sink' effect t) := by
  cases effect with
  | next m => exact .going h
  | fail fault m => exact .ended h
  | offer e accepted refused => exact offer_alike (hreply e rfl) fun _ _ h => .going h

/-- A turn without an instruction ends both runs alike, whatever the sinks are. -/
theorem next_alike_of_beginning?_eq_none {a : Run σ} {b : Run τ} (h : Run.Alike R a b)
    (hbegin : task.beginning? a = none) :
    Run.Alike R (task.next sink a) (task.next sink' b) := by
  cases h with
  | ended h => exact .ended h
  | @going m s t h =>
    rcases htoken : task.program.get? m.index with _ | token
    · simp only [next, htoken]
      exact .ended h
    · rcases hlimit : task.limitReached? m with _ | limit
      · rw [beginning?_eq_some_iff.mpr ⟨⟨s, rfl⟩, htoken, hlimit⟩] at hbegin
        cases hbegin
      · rw [next_limitReached sink s htoken hlimit, next_limitReached sink' t htoken hlimit]
        exact .ended h

theorem execute?_alike {ρ : Type} {task' : Task} {m : Machine} {s : σ} {t : τ} {n : Nat}
    (h : Run.Alike R (task.run sink m s n) (task'.run sink' m t n))
    {f : Except Fault Outcome × Machine × σ → ρ} {g : Except Fault Outcome × Machine × τ → ρ}
    (hfg : ∀ result m s t, R s t → f (result, m, s) = g (result, m, t)) :
    (task.execute? sink n m s).map f = (task'.execute? sink' n m t).map g := by
  rw [execute?_eq_ending?, execute?_eq_ending?]
  exact h.map_ending? hfg

variable (hsink : ∀ s t e, R s t → Reply.Alike R (sink.offer s e) (sink'.offer t e))
include hsink

theorem begin_alike (token : String) (m : Machine) {s : σ} {t : τ} (h : R s t) :
    Run.Alike R (task.begin sink token m s) (task.begin sink' token m t) := by
  have hcarry : ∀ m s t, R s t →
      Run.Alike R (task.carryOut sink token m s) (task.carryOut sink' token m t) := by
    intro m s t h
    exact settle_alike h fun e _ => hsink s t e h
  simp only [begin]
  split
  · exact offer_alike (hsink s t _ h) fun s t h => hcarry _ s t h
  · exact hcarry _ s t h

theorem next_alike {a : Run σ} {b : Run τ} (h : Run.Alike R a b) :
    Run.Alike R (task.next sink a) (task.next sink' b) := by
  rcases hbegin : task.beginning? a with _ | ⟨m, token⟩
  · exact task.next_alike_of_beginning?_eq_none h hbegin
  · obtain ⟨⟨s, rfl⟩, htoken, hlimit⟩ := beginning?_eq_some_iff.mp hbegin
    cases h with
    | @going _ _ t h =>
      rw [next_going sink s htoken hlimit, next_going sink' t htoken hlimit]
      exact task.begin_alike hsink token m h

/-- **Runs of one task with sinks that answer alike stay alike.** -/
theorem run_alike (m : Machine) {s : σ} {t : τ} (h : R s t) (n : Nat) :
    Run.Alike R (task.run sink m s n) (task.run sink' m t n) := by
  induction n with
  | zero =>
    rw [run_zero, run_zero]
    exact task.start_alike m h
  | succ n ih =>
    rw [run_succ, run_succ]
    exact task.next_alike hsink ih

end Turns

end Task

/-! ### The record -/

/-- The sink with a record of the events that it has accepted. -/
def Sink.recorded (sink : Sink σ) : Sink (σ × List Event) where
  offer s e :=
    match sink.offer s.1 e with
    | .accepted t => .accepted (t, s.2 ++ [e])
    | .refused reason t => .refused reason (t, s.2)

theorem Sink.recorded_alike (sink : Sink σ) (s : σ × List Event) (t : σ) (e : Event)
    (h : s.1 = t) :
    Reply.Alike (fun s t => s.1 = t) (sink.recorded.offer s e) (sink.offer t e) := by
  subst h
  simp only [recorded]
  cases sink.offer s.1 e with
  | accepted t => exact .accepted rfl
  | refused reason t => exact .refused rfl

namespace Task

variable (task : Task) (sink : Sink σ) (m : Machine) (state : σ)

/-- The events that the sink has accepted in so many turns of a run. -/
def events (turns : Nat) : List Event :=
  (task.run sink.recorded m (state, []) turns).state.2

/-- **Keeping a record changes nothing else.** -/
theorem run_recorded (n : Nat) :
    Run.Alike (fun s t => s.1 = t) (task.run sink.recorded m (state, []) n)
      (task.run sink m state n) :=
  task.run_alike sink.recorded_alike m rfl n

/-- A run with a record ends as the run without does, with what was shown in its record. -/
theorem run_recorded_eq_ended_iff {n : Nat} {result : Except Fault Outcome} {m' : Machine}
    {s : σ} {record : List Event} :
    task.run sink.recorded m (state, []) n = .ended result m' (s, record) ↔
      task.run sink m state n = .ended result m' s ∧
        task.events sink m state n = record := by
  have halike := task.run_recorded sink m state n
  unfold events
  generalize task.run sink.recorded m (state, []) n = a at halike ⊢
  generalize task.run sink m state n = b at halike ⊢
  cases halike with
  | going h => simp
  | @ended result' m'' t s' h =>
    subst h
    obtain ⟨t, shown⟩ := t
    simp only [Run.ended.injEq, Prod.mk.injEq, Run.state_ended, and_assoc]

theorem events_of_labels_error {fault : Fault}
    (h : Labels.ofProgram task.program = .error fault) (n : Nat) :
    task.events sink m state n = [] := by
  rw [events, task.run_of_labels_error sink.recorded m (state, []) h n, Run.state_ended]

theorem begun_recorded (n : Nat) :
    task.begun sink.recorded m (state, []) n = task.begun sink m state n := by
  unfold begun
  apply List.countP_congr
  intro i _
  rw [task.beginning?_alike (task.run_recorded sink m state i)]

end Task

end DequeMachine

/-
  DequeMachine/Proofs/Run/Exit.lean
  =================================
  **The end that a program asks for, and the event that shows it.**

  A request to end leaves its marks in three places, one after another: an event is offered,
  a halt is noted, and the index goes past the end of the program.  At every time either
  none of this has happened, or all of it, with the event as the last one on record and with
  the deque as the event shows it (`ExitNoted`).  A turn keeps this law (`next_exitNoted`):
  with the index past the end of the program, no turn begins another instruction.

  The law does not depend on what the sink accepts.  If the event is refused, none of the
  three is there.
-/
import DequeMachine.Proofs.Run.Record

namespace DequeMachine

variable {σ : Type}

/-! ### The law -/

/-- Does an event show the end that a program has asked for? -/
def Event.isExit : Event → Bool
  | .exit _ => true
  | _ => false

/-- No end was asked for so far. -/
def Unasked (record : List Event) : Prop := ∀ e ∈ record, e.isExit = false

theorem Unasked.append {record shown : List Event} (h : Unasked record) (h' : Unasked shown) :
    Unasked (record ++ shown) := by
  intro e he
  rcases List.mem_append.mp he with hmem | hmem
  · exact h e hmem
  · exact h' e hmem

theorem Unasked.concat {record : List Event} {e : Event} (h : Unasked record)
    (he : e.isExit = false) : Unasked (record ++ [e]) := by
  apply h.append
  intro e' he'
  rw [List.mem_singleton.mp he', he]

theorem Unasked.exit_notMem {record : List Event} (h : Unasked record) (values : List Value) :
    .exit values ∉ record := by
  intro hmem
  cases h _ hmem

/-- A machine and a record say the same about a request to end, in a program of so many
    tokens and given the halt that was noted earlier. -/
inductive ExitNoted (size : Nat) (earlier : Option Halt) (m : Machine) (record : List Event) :
    Prop where
  | notYet (hhalt : m.halt = earlier) (hrecord : Unasked record)
  | last (front : List Event) (hhalt : m.halt = some .exit) (hindex : size < m.index)
      (hrecord : record = front ++ [.exit m.deque.toList]) (hfront : Unasked front)

/-- The machine of a run agrees with its record, and so does its result. -/
inductive Run.ExitNoted (size : Nat) (earlier : Option Halt) : Run (σ × List Event) → Prop where
  | going {m : Machine} {s : σ × List Event} (h : DequeMachine.ExitNoted size earlier m s.2) :
      ExitNoted size earlier (.going m s)
  | ok {m : Machine} {s : σ × List Event} (h : DequeMachine.ExitNoted size earlier m s.2) :
      ExitNoted size earlier (.ended (.ok m.outcome) m s)
  | fault {fault : Fault} {m : Machine} {s : σ × List Event} (hhalt : m.halt = earlier)
      (hrecord : Unasked s.2) : ExitNoted size earlier (.ended (.error fault) m s)

/-! ### Turn by turn -/

namespace Task

section Turns

variable {size : Nat} {earlier : Option Halt} (sink : Sink σ) {s : σ × List Event}
  (hrecord : Unasked s.2)
include hrecord

theorem offer_exitNoted {e : Event} {refused : Machine} {go : σ × List Event → Run (σ × List Event)}
    (hhalt : refused.halt = earlier)
    (hgo : ∀ t, Run.ExitNoted size earlier (go (t, s.2 ++ [e]))) :
    Run.ExitNoted size earlier (offer sink.recorded e s refused go) := by
  simp only [offer, Sink.recorded]
  cases sink.offer s.1 e with
  | accepted t => exact hgo t
  | refused reason t => exact .fault hhalt hrecord

theorem settle_exitNoted {m : Machine} (hhalt : m.halt = earlier) (i : Instruction) :
    Run.ExitNoted size earlier (settle sink.recorded (m.exec size i) s) := by
  have hyields := Machine.exec_yields size m i
  generalize m.exec size i = effect at hyields ⊢
  cases hyields with
  | next deque index hsilent => exact .going (.notYet hhalt hrecord)
  | fault fault deque hsilent hindex => exact .fault hhalt hrecord
  | exit side hi =>
    apply offer_exitNoted sink hrecord hhalt
    intro t
    exact .going (.last s.2 rfl (Nat.lt_succ_self size) rfl hrecord)
  | trace side hi =>
    apply offer_exitNoted sink hrecord hhalt
    intro t
    exact .going (.notYet hhalt (hrecord.concat rfl))
  | print side v deque hi hpop =>
    apply offer_exitNoted sink hrecord
    · exact hhalt
    · intro t
      exact .going (.notYet hhalt (hrecord.concat rfl))

theorem begin_exitNoted (task : Task) (token : String) {m : Machine} (hhalt : m.halt = earlier) :
    Run.ExitNoted task.program.size earlier (task.begin sink.recorded token m s) := by
  have hcounted : ({ m with steps := m.steps + 1 } : Machine).halt = earlier := hhalt
  simp only [begin]
  split
  · apply offer_exitNoted sink hrecord hcounted
    intro t
    exact settle_exitNoted sink (hrecord.concat rfl) hcounted _
  · exact settle_exitNoted sink hrecord hcounted _

end Turns

section Runs

variable (task : Task) (sink : Sink σ)

/-- **A turn keeps the law.** -/
theorem next_exitNoted {earlier : Option Halt} {run : Run (σ × List Event)}
    (h : Run.ExitNoted task.program.size earlier run) :
    Run.ExitNoted task.program.size earlier (task.next sink.recorded run) := by
  cases h with
  | ok h => exact .ok h
  | fault hhalt hrecord => exact .fault hhalt hrecord
  | @going m s h =>
    rcases htoken : task.program.get? m.index with _ | token
    · simp only [next, htoken]
      exact .ok h
    · cases h with
      | last front hhalt hindex hrecord hfront =>
        rw [Program.get?_eq_none (Nat.le_of_lt hindex)] at htoken
        cases htoken
      | notYet hhalt hrecord =>
        rcases hlimit : task.limitReached? m with _ | limit
        · rw [next_going sink.recorded s htoken hlimit]
          exact begin_exitNoted sink hrecord task token hhalt
        · rw [next_limitReached sink.recorded s htoken hlimit]
          exact .fault hhalt hrecord

/-- **A run keeps the law.** -/
theorem run_exitNoted (m : Machine) (state : σ) (n : Nat) :
    Run.ExitNoted task.program.size m.halt (task.run sink.recorded m (state, []) n) := by
  have hnothing : Unasked [] := fun _ he => nomatch he
  induction n with
  | zero =>
    rw [run_zero, start]
    split
    · exact .going (.notYet rfl hnothing)
    · exact .fault rfl hnothing
  | succ n ih =>
    rw [run_succ]
    exact task.next_exitNoted sink ih

/-- What a run that has ended leaves noted. -/
theorem halt_of_ended {m m' : Machine} {state s : σ} {n : Nat} {result : Except Fault Outcome}
    (h : task.execute? sink n m state = some (result, m', s)) :
    (m'.halt = m.halt ∧ Unasked (task.events sink m state n)) ∨
      (m'.halt = some .exit ∧ ∃ values, .exit values ∈ task.events sink m state n) := by
  rw [execute?_eq_some_iff] at h
  have hnoted := task.run_exitNoted sink m state n
  rw [(task.run_recorded_eq_ended_iff sink m state).mpr ⟨h, rfl⟩] at hnoted
  cases hnoted with
  | fault hhalt hrecord => exact .inl ⟨hhalt, hrecord⟩
  | ok h =>
    cases h with
    | notYet hhalt hrecord => exact .inl ⟨hhalt, hrecord⟩
    | last front hhalt hindex hrecord hfront =>
      have hshown : task.events sink m state n = front ++ [.exit m'.deque.toList] := hrecord
      refine .inr ⟨hhalt, m'.deque.toList, ?_⟩
      rw [hshown]
      exact List.mem_append_right front List.mem_cons_self

end Runs

end Task

/-! ### What the law says of a record -/

theorem Unasked.getLast?_ne {record : List Event} (h : Unasked record) (values : List Value) :
    record.getLast? ≠ some (.exit values) := by
  intro hlast
  exact h.exit_notMem values (List.mem_of_getLast? hlast)

theorem Unasked.dropLast {record : List Event} (h : Unasked record) : Unasked record.dropLast :=
  fun e he => h e ((List.dropLast_sublist record).subset he)

section Record

variable {size : Nat} {earlier : Option Halt} {m : Machine} {s : σ × List Event}

theorem ExitNoted.unasked_dropLast {record : List Event} (h : ExitNoted size earlier m record) :
    Unasked record.dropLast := by
  cases h with
  | notYet hhalt hrecord => exact hrecord.dropLast
  | last front hhalt hindex hrecord hfront =>
    rw [hrecord, List.dropLast_concat]
    exact hfront

theorem Run.ExitNoted.unasked_dropLast {run : Run (σ × List Event)}
    (h : Run.ExitNoted size earlier run) : Unasked run.state.2.dropLast := by
  cases h with
  | going h => exact h.unasked_dropLast
  | ok h => exact h.unasked_dropLast
  | fault hhalt hrecord => exact hrecord.dropLast

/-- With the event on record, the run ends with the next turn and leaves what the event shows. -/
theorem Run.ExitNoted.exists_next {task : Task} {sink : Sink σ} {run : Run (σ × List Event)}
    (h : Run.ExitNoted task.program.size earlier run) {values : List Value}
    (hmem : .exit values ∈ run.state.2) :
    ∃ o m s, task.next sink.recorded run = .ended (.ok o) m s ∧ o.halt = .exit ∧
      o.values = values := by
  -- the event on record is the one that was shown last
  have hshown : ∀ {m : Machine} {s : σ × List Event},
      DequeMachine.ExitNoted task.program.size earlier m s.2 → .exit values ∈ s.2 →
      m.halt = some .exit ∧ task.program.size < m.index ∧ m.deque.toList = values := by
    intro m s h hmem
    cases h with
    | notYet hhalt hrecord => exact absurd hmem (hrecord.exit_notMem values)
    | last front hhalt hindex hrecord hfront =>
      rw [hrecord] at hmem
      rcases List.mem_append.mp hmem with hmem | hmem
      · exact absurd hmem (hfront.exit_notMem values)
      · cases List.mem_singleton.mp hmem
        exact ⟨hhalt, hindex, rfl⟩
  cases h with
  | @going m s h =>
    obtain ⟨hhalt, hindex, hvalues⟩ := hshown h hmem
    refine ⟨m.outcome, m, s, ?_, ?_, hvalues⟩
    · simp only [Task.next, Program.get?_eq_none (Nat.le_of_lt hindex)]
    · simp only [Machine.outcome, hhalt, Option.getD_some]
  | @ok m s h =>
    obtain ⟨hhalt, _, hvalues⟩ := hshown h hmem
    refine ⟨m.outcome, m, s, rfl, ?_, hvalues⟩
    simp only [Machine.outcome, hhalt, Option.getD_some]
  | fault hhalt hrecord => exact absurd hmem (hrecord.exit_notMem values)

variable {result : Except Fault Outcome} (h : Run.ExitNoted size none (.ended result m s))
include h

theorem Run.ExitNoted.getLast?_eq_iff (values : List Value) :
    s.2.getLast? = some (.exit values) ↔
      ∃ o, result = .ok o ∧ o.halt = .exit ∧ o.values = values := by
  cases h with
  | fault hhalt hrecord =>
    constructor
    · intro hlast
      exact absurd hlast (hrecord.getLast?_ne values)
    · rintro ⟨o, hok, _⟩
      cases hok
  | ok h =>
    cases h with
    | notYet hhalt hrecord =>
      constructor
      · intro hlast
        exact absurd hlast (hrecord.getLast?_ne values)
      · rintro ⟨o, hok, hexit, _⟩
        cases hok
        rw [Machine.outcome, hhalt] at hexit
        cases hexit
    | last front hhalt hindex hrecord hfront =>
      rw [hrecord, List.getLast?_concat]
      constructor
      · intro hlast
        cases hlast
        refine ⟨m.outcome, rfl, ?_, rfl⟩
        simp only [Machine.outcome, hhalt, Option.getD_some]
      · rintro ⟨o, hok, _, hvalues⟩
        cases hok
        rw [← hvalues]
        rfl

theorem Run.ExitNoted.unasked (hend : ∀ o, result = .ok o → o.halt = .endOfProgram) :
    Unasked s.2 := by
  cases h with
  | fault hhalt hrecord => exact hrecord
  | ok h =>
    cases h with
    | notYet hhalt hrecord => exact hrecord
    | last front hhalt hindex hrecord hfront =>
      have hhalt' := hend _ rfl
      rw [Machine.outcome, hhalt] at hhalt'
      cases hhalt'

end Record

namespace Task

/-- **The event of an end that was asked for is the last one, and the result agrees with it.**
    Whatever the sink accepts, among the events that it has accepted in so many turns none but
    the last shows such an end.  If one does, the run ends with the next turn at the latest, by
    the halt that was asked for and with the values that the event shows.  Once the run has
    ended, the last event shows the end and some values exactly if the result is that halt and
    these values.  After any other result there is no such event. -/
theorem exit_shown_last (task : Task) (sink : Sink σ) (state : σ) (n : Nat) :
    let shown := task.events sink .fresh state n
    (∀ values, .exit values ∉ shown.dropLast) ∧
      (∀ values, .exit values ∈ shown →
        ∃ o m s, task.execute? sink (n + 1) .fresh state = some (.ok o, m, s) ∧
          o.halt = .exit ∧ o.values = values) ∧
      ∀ result m s, task.execute? sink n .fresh state = some (result, m, s) →
        (∀ values, shown.getLast? = some (.exit values) ↔
          ∃ o, result = .ok o ∧ o.halt = .exit ∧ o.values = values) ∧
        ((∀ o, result = .ok o → o.halt = .endOfProgram) → ∀ values, .exit values ∉ shown) := by
  intro shown
  have hnoted := task.run_exitNoted sink .fresh state n
  refine ⟨?before, ?next, ?ended⟩
  case before => exact hnoted.unasked_dropLast.exit_notMem
  case next =>
    intro values hmem
    obtain ⟨o, m, s, hnext, hhalt, hvalues⟩ := hnoted.exists_next hmem
    rw [← run_succ, run_recorded_eq_ended_iff] at hnext
    exact ⟨o, m, s.1, (task.execute?_eq_some_iff sink .fresh state).mpr hnext.1, hhalt, hvalues⟩
  case ended =>
    intro result m s hend
    rw [execute?_eq_some_iff] at hend
    rw [(task.run_recorded_eq_ended_iff sink .fresh state).mpr ⟨hend, rfl⟩] at hnoted
    exact ⟨hnoted.getLast?_eq_iff, fun hother => (hnoted.unasked hother).exit_notMem⟩

/-- An end that is asked for in the last step that the limit allows is shown, and the run ends
    by it. -/
theorem exit_shown_last_on_limit :
    let task : Task := ⟨⟨#["1.", "exit.", "2."]⟩, { trace := true, maxSteps := some 2 }⟩
    task.events Journal.sink .fresh .empty 2 =
        [.step 0 "1." [], .step 1 "exit." [.number (.ofNat 1)], .exit [.number (.ofNat 1)]] ∧
      ∃ o m j, task.execute? Journal.sink 3 .fresh .empty = some (.ok o, m, j) ∧
        o.halt = .exit ∧ o.values = [.number (.ofNat 1)] := by
  intro task
  have hevents : task.events Journal.sink .fresh .empty 2 =
      [.step 0 "1." [], .step 1 "exit." [.number (.ofNat 1)], .exit [.number (.ofNat 1)]] := by
    decide +kernel
  obtain ⟨_, hnext, _⟩ := exit_shown_last task Journal.sink .empty 2
  refine ⟨hevents, hnext _ ?_⟩
  rw [hevents]
  simp

end Task

end DequeMachine

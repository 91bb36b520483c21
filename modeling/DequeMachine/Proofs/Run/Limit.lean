/-
  DequeMachine/Proofs/Run/Limit.lean
  ==================================
  **A limit on the steps only cuts a run short.**

  The same task is run with a limit and without.  As long as the free run has not
  begun more instructions than the limit allows, the limited run is the same run,
  with the same machine and the same state of the sink (`run_withLimit`).  Once the
  free run is about to begin one more, the limited run ends there, and nothing of
  that instruction is shown (`run_succ_withLimit`).

  The limit is checked after the end of the program and before the count, so a run
  that ends exactly on its limit is not cut.  No instruction fails for want of steps or
  because of a label that is defined twice (`run_eq_ended_cases`).  So a run that does the one
  names the limit that was set (`maxSteps_of_run_eq_ended`), and a run that does the other has
  not begun anything (`labels_of_execute?`).
-/
import DequeMachine.Proofs.Labels

namespace DequeMachine

variable {σ : Type}

namespace Task

/-- The task with its limit on steps replaced. -/
def withLimit (task : Task) (maxSteps : Option Nat) : Task :=
  { task with config := { task.config with maxSteps } }

theorem withLimit_eq_self {task : Task} {limit : Nat} (h : task.config.maxSteps = some limit) :
    task.withLimit (some limit) = task := by
  rw [← h]
  rfl

section Turns

variable (task : Task) (limit : Nat)

theorem limitReached?_withLimit_of_lt {m : Machine} (h : m.steps < limit) :
    (task.withLimit (some limit)).limitReached? m = none := by
  simp [limitReached?, withLimit, h]

theorem limitReached?_withLimit_of_le {m : Machine} (h : limit ≤ m.steps) :
    (task.withLimit (some limit)).limitReached? m = some limit := by
  simp [limitReached?, withLimit, h]

theorem lt_of_limitReached?_withLimit {m : Machine}
    (h : (task.withLimit (some limit)).limitReached? m = none) : m.steps < limit := by
  apply Nat.lt_of_not_le
  intro hle
  rw [limitReached?_withLimit_of_le task limit hle] at h
  cases h

variable (sink : Sink σ)

/-- A turn that stays within the limit is the same turn without it. -/
theorem next_withLimit {run : Run σ}
    (h : ((task.withLimit none).next sink run).machine.steps ≤ limit) :
    (task.withLimit (some limit)).next sink run = (task.withLimit none).next sink run := by
  cases run with
  | ended result m s => rfl
  | going m s =>
    rcases htoken : task.program.get? m.index with _ | token
    · have hend : ∀ maxSteps, (task.withLimit maxSteps).program.get? m.index = none := by
        intro _
        exact htoken
      simp only [next, hend]
    · have hfree : (task.withLimit none).next sink (.going m s) =
          (task.withLimit none).begin sink token m s := next_going sink s htoken rfl
      have hcount : ((task.withLimit none).begin sink token m s).machine.steps = m.steps + 1 :=
        begin_leaves (p := fun m' => m'.steps = m.steps + 1) sink token s fun _ _ _ => rfl
      have hlt : m.steps < limit := by
        rw [hfree, hcount] at h
        exact h
      have hlimited : (task.withLimit (some limit)).next sink (.going m s) =
          (task.withLimit (some limit)).begin sink token m s :=
        next_going sink s htoken (limitReached?_withLimit_of_lt task limit hlt)
      rw [hfree, hlimited]
      rfl

/-- **No turn takes the count of steps past the limit.** -/
theorem steps_next_le {run : Run σ} (h : run.machine.steps ≤ limit) :
    ((task.withLimit (some limit)).next sink run).machine.steps ≤ limit := by
  rw [steps_next]
  rcases hbegin : (task.withLimit (some limit)).beginning? run with _ | ⟨m, token⟩
  · exact h
  · obtain ⟨⟨s, rfl⟩, _, hlimit⟩ := beginning?_eq_some_iff.mp hbegin
    exact lt_of_limitReached?_withLimit task limit hlimit

end Turns

section Runs

variable (task : Task) (limit : Nat) (sink : Sink σ) (m : Machine) (state : σ)

theorem steps_run_le (h : m.steps ≤ limit) (n : Nat) :
    ((task.withLimit (some limit)).run sink m state n).machine.steps ≤ limit := by
  induction n with
  | zero =>
    rw [run_zero, steps_start]
    exact h
  | succ n ih =>
    rw [run_succ]
    exact task.steps_next_le limit sink ih

/-- **A free run that stays within the limit is the limited run.** -/
theorem run_withLimit {n : Nat}
    (h : m.steps + (task.withLimit none).begun sink m state n ≤ limit) :
    (task.withLimit (some limit)).run sink m state n =
      (task.withLimit none).run sink m state n := by
  induction n with
  | zero =>
    rw [run_zero, run_zero]
    rfl
  | succ n ih =>
    have hn : m.steps + (task.withLimit none).begun sink m state n ≤ limit :=
      Nat.le_trans (Nat.add_le_add_left (begun_mono _ sink m state (Nat.le_succ n)) _) h
    rw [run_succ, run_succ, ih hn]
    refine task.next_withLimit limit sink ?_
    rw [← run_succ, steps_run]
    exact h

/-- **The turn that would begin one instruction too many ends the limited run,** with
    the machine and the sink as they were. -/
theorem run_succ_withLimit {n : Nat} {m' : Machine} {token : String}
    (hbegin : (task.withLimit none).beginning? ((task.withLimit none).run sink m state n) =
      some (m', token)) (hlimit : m'.steps = limit) :
    (task.withLimit (some limit)).run sink m state (n + 1) =
      .ended (.error (.stepLimit limit)) m' ((task.withLimit none).run sink m state n).state := by
  obtain ⟨⟨s, hgoing⟩, htoken, _⟩ := beginning?_eq_some_iff.mp hbegin
  have hwithin : m.steps + (task.withLimit none).begun sink m state n ≤ limit := by
    rw [← steps_run, hgoing]
    exact Nat.le_of_eq hlimit
  have hreached := limitReached?_withLimit_of_le task limit (Nat.le_of_eq hlimit.symm)
  rw [run_succ, task.run_withLimit limit sink m state hwithin, hgoing]
  have htoken' : (task.withLimit (some limit)).program.get? m'.index = some token := htoken
  exact next_limitReached sink s htoken' hreached

theorem exists_run_eq_ended {n : Nat} (h : limit ≤ m.steps + n) :
    ∃ result m' s, (task.withLimit (some limit)).run sink m state (n + 1) =
      .ended result m' s := by
  rw [run_succ]
  rcases hrun : (task.withLimit (some limit)).run sink m state n with ⟨m', s⟩ | ⟨result, m', s⟩
  · have hsteps : limit ≤ m'.steps := by
      have hcount := steps_run (task.withLimit (some limit)) sink m state n
      rw [hrun, begun_of_going _ sink m state hrun, Run.machine_going] at hcount
      exact hcount ▸ h
    have hreached := limitReached?_withLimit_of_le task limit hsteps
    rcases hbegin : (task.withLimit (some limit)).beginning? (.going m' s) with _ | ⟨m'', token⟩
    · obtain ⟨result, hnext⟩ := exists_next_eq_ended sink hbegin
      exact ⟨result, m', s, hnext⟩
    · obtain ⟨⟨_, hgoing⟩, _, hlimit⟩ := beginning?_eq_some_iff.mp hbegin
      cases hgoing
      rw [hreached] at hlimit
      cases hlimit
  · exact ⟨result, m', s, rfl⟩

end Runs

/-! ### How a run ends -/

section Endings

variable {sink : Sink σ} {m' : Machine} {s' : σ} (task : Task) (m : Machine) (state : σ) {n : Nat}

/-- **How a run ends.**  Its labels are no good, there are no more tokens, the steps are used
    up, or there is a fault about the token at some index. -/
theorem run_eq_ended_cases {result : Except Fault Outcome}
    (h : task.run sink m state n = .ended result m' s') :
    (∃ fault, Labels.ofProgram task.program = .error fault ∧ result = .error fault) ∨
      result = .ok m'.outcome ∨
      (∃ limit, task.config.maxSteps = some limit ∧ result = .error (.stepLimit limit)) ∨
      ∃ fault index, result = .error fault ∧ fault.StopsAt index := by
  induction n with
  | zero =>
    rw [run_zero, start] at h
    split at h
    · cases h
    · rename_i hlabels
      cases h
      exact .inl ⟨_, hlabels, rfl⟩
  | succ n ih =>
    rw [run_succ] at h
    rcases hrun : task.run sink m state n with ⟨m₁, s₁⟩ | ⟨result, m₁, s₁⟩
    · rw [hrun] at h
      rcases htoken : task.program.get? m₁.index with _ | token
      · simp only [next, htoken] at h
        cases h
        exact .inr (.inl rfl)
      · rcases hreached : task.limitReached? m₁ with _ | limit
        · rw [next_going sink s₁ htoken hreached] at h
          obtain ⟨fault, hfault, hstops⟩ := stopsAt_of_begin sink h
          exact .inr (.inr (.inr ⟨fault, m₁.index, hfault, hstops⟩))
        · rw [next_limitReached sink s₁ htoken hreached] at h
          cases h
          exact .inr (.inr (.inl ⟨limit, (Option.filter_eq_some_iff.mp hreached).1, rfl⟩))
    · rw [hrun] at h
      exact ih (hrun.trans h)

/-- **The limit that a run fails by is the one that was set.** -/
theorem maxSteps_of_run_eq_ended {limit : Nat}
    (h : task.run sink m state n = .ended (.error (.stepLimit limit)) m' s') :
    task.config.maxSteps = some limit := by
  rcases task.run_eq_ended_cases m state h with ⟨fault, hlabels, hfault⟩ | hok |
    ⟨limit', hlimit, hfault⟩ | ⟨fault, index, hfault, hstops⟩
  · cases hfault
    cases Labels.index?_isSome_of_error hlabels
  · cases hok
  · cases hfault
    exact hlimit
  · cases hfault
    cases hstops.index?_eq

/-- **A label that is defined twice is found before the first turn.** -/
theorem labels_error_of_run_eq_ended {index : Nat} {name : String}
    (h : task.run sink m state n = .ended (.error (.duplicateLabel index name)) m' s') :
    Labels.ofProgram task.program = .error (.duplicateLabel index name) := by
  rcases task.run_eq_ended_cases m state h with ⟨fault, hlabels, hfault⟩ | hok |
    ⟨limit, hlimit, hfault⟩ | ⟨fault, index', hfault, hstops⟩
  · cases hfault
    exact hlabels
  · cases hok
  · cases hfault
  · cases hfault
    exact absurd rfl (hstops.ne_duplicateLabel index name)

/-- **Collecting the labels fails exactly if the run ends by a label that is defined twice,**
    and then nothing has happened. -/
theorem labels_of_execute? {result : Except Fault Outcome}
    (h : task.execute? sink n m state = some (result, m', s')) :
    (∃ labels, Labels.ofProgram task.program = .ok labels ∧
      ∀ index name, result ≠ .error (.duplicateLabel index name)) ∨
    ∃ index name, Labels.ofProgram task.program = .error (.duplicateLabel index name) ∧
      result = .error (.duplicateLabel index name) ∧ s' = state := by
  cases hlabels : Labels.ofProgram task.program with
  | ok labels =>
    refine .inl ⟨labels, rfl, ?_⟩
    rintro index name rfl
    have herror := task.labels_error_of_run_eq_ended m state ((execute?_eq_some_iff ..).mp h)
    rw [hlabels] at herror
    cases herror
  | error fault =>
    obtain ⟨index, name, rfl, _⟩ := Labels.ofProgram_eq_error_iff.mp hlabels
    rw [task.execute?_of_labels_error sink m state hlabels] at h
    cases h
    exact .inr ⟨index, name, rfl, rfl, rfl⟩

end Endings

/-- A free run that begins more instructions than the limit, or never ends, is on its
    way when the steps are used up. -/
theorem exists_beginning?_of_exceeds (task : Task) (limit : Nat) (sink : Sink σ) (state : σ)
    (h : (∃ n, limit < (task.withLimit none).begun sink .fresh state n) ∨
      ∀ n, (task.withLimit none).execute? sink n .fresh state = none) :
    ∃ m token, (task.withLimit none).beginning?
        ((task.withLimit none).run sink .fresh state limit) = some (m, token) ∧
      m.steps = limit := by
  suffices hsome : ∃ m token, (task.withLimit none).beginning?
      ((task.withLimit none).run sink .fresh state limit) = some (m, token) by
    obtain ⟨m, token, hbegin⟩ := hsome
    obtain ⟨⟨s, hgoing⟩, _, _⟩ := beginning?_eq_some_iff.mp hbegin
    have hcount := steps_run (task.withLimit none) sink .fresh state limit
    rw [hgoing, begun_of_going _ sink .fresh state hgoing] at hcount
    exact ⟨m, token, hbegin, hcount.trans (Nat.zero_add limit)⟩
  rcases h with ⟨n, hn⟩ | hnever
  · rcases hbegin : (task.withLimit none).beginning?
        ((task.withLimit none).run sink .fresh state limit) with _ | ⟨m, token⟩
    · exfalso
      have hle : limit ≤ n := Nat.le_trans (Nat.le_of_lt hn) (begun_le _ sink .fresh state n)
      rw [begun_of_beginning?_eq_none _ sink .fresh state hbegin hle] at hn
      exact Nat.not_lt.mpr (begun_le _ sink .fresh state limit) hn
    · exact ⟨m, token, rfl⟩
  · obtain ⟨m, s, hgoing⟩ := (execute?_eq_none_iff _ sink .fresh state).mp (hnever (limit + 1))
    exact exists_beginning?_of_going _ sink .fresh state hgoing

/-- **The step limit only truncates.**  A free run that ends within the limit is the
    limited run, to the last event.  A free run that goes past it is cut after as many
    instructions as the limit allows, before anything of the next one is shown.  And
    every limited run ends, with a count that has never passed the limit. -/
theorem limit_truncates (task : Task) (limit : Nat) (sink : Sink σ) (state : σ) :
    let free := task.withLimit none
    let limited := task.withLimit (some limit)
    (∀ n result m s, free.execute? sink n .fresh state = some (result, m, s) →
      free.begun sink .fresh state n ≤ limit →
        limited.execute? sink n .fresh state = some (result, m, s) ∧
        limited.events sink .fresh state n = free.events sink .fresh state n) ∧
    ((∃ n, limit < free.begun sink .fresh state n) ∨
        (∀ n, free.execute? sink n .fresh state = none) →
      ∃ m s, free.run sink .fresh state limit = .going m s ∧
        free.begun sink .fresh state limit = limit ∧
        limited.execute? sink (limit + 1) .fresh state =
          some (.error (.stepLimit limit), m, s) ∧
        limited.events sink .fresh state (limit + 1) = free.events sink .fresh state limit) ∧
    (∃ result m s, limited.execute? sink (limit + 1) .fresh state = some (result, m, s)) ∧
    ∀ n, (limited.run sink .fresh state n).machine.steps ≤ limit := by
  intro free limited
  refine ⟨?within, ?past, ?ends, ?count⟩
  case within =>
    intro n result m s hfree hle
    have hle' : Machine.fresh.steps + free.begun sink .fresh state n ≤ limit := by
      rw [show Machine.fresh.steps = 0 from rfl, Nat.zero_add]
      exact hle
    have hrun := task.run_withLimit limit sink .fresh state hle'
    have hevents : limited.run sink.recorded .fresh (state, []) n =
        free.run sink.recorded .fresh (state, []) n := by
      refine task.run_withLimit limit sink.recorded .fresh (state, []) ?_
      rw [begun_recorded]
      exact hle'
    constructor
    · rw [execute?_eq_some_iff] at hfree ⊢
      exact hrun.trans hfree
    · unfold events
      rw [hevents]
  case past =>
    intro hpast
    obtain ⟨m, token, hbegin, hsteps⟩ := task.exists_beginning?_of_exceeds limit sink state hpast
    obtain ⟨⟨s, hgoing⟩, _, _⟩ := beginning?_eq_some_iff.mp hbegin
    have hcut := task.run_succ_withLimit limit sink .fresh state hbegin hsteps
    -- The recorded run is cut at the same place, and what it has recorded by then
    -- is what the free run has shown.
    have hbegin' : free.beginning? (free.run sink.recorded .fresh (state, []) limit) =
        some (m, token) :=
      (free.beginning?_alike (free.run_recorded sink .fresh state limit)).trans hbegin
    have hcut' := task.run_succ_withLimit limit sink.recorded .fresh (state, []) hbegin' hsteps
    refine ⟨m, s, hgoing, free.begun_of_going sink .fresh state hgoing, ?_, ?_⟩
    · rw [execute?_eq_some_iff, hcut, hgoing]
      rfl
    · unfold events
      rw [hcut']
      rfl
  case ends =>
    have hle : limit ≤ Machine.fresh.steps + limit := Nat.le_add_left limit _
    obtain ⟨result, m, s, hend⟩ := task.exists_run_eq_ended limit sink .fresh state hle
    exact ⟨result, m, s, (execute?_eq_some_iff _ sink .fresh state).mpr hend⟩
  case count => exact task.steps_run_le limit sink .fresh state (Nat.zero_le limit)

/-- A program that jumps back for ever is cut after three instructions. -/
theorem limit_truncates_loop :
    let loop : Task := ⟨⟨#["", "a:", "a.", "jmp."]⟩, { trace := true }⟩
    3 < (loop.withLimit none).begun Journal.sink .fresh .empty 4 ∧
      ∃ m j, (loop.withLimit (some 3)).execute? Journal.sink 4 .fresh .empty =
        some (.error (.stepLimit 3), m, j) := by
  intro loop
  have hpast : 3 < (loop.withLimit none).begun Journal.sink .fresh .empty 4 := by
    decide +kernel
  obtain ⟨m, j, _, _, hcut, _⟩ :=
    (limit_truncates loop 3 Journal.sink .empty).2.1 (.inl ⟨4, hpast⟩)
  exact ⟨hpast, m, j, hcut⟩

end Task

end DequeMachine

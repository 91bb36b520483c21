/-
  DequeMachine/Proofs/Run/Resume.lean
  ===================================
  **A machine that is used for several runs.**

  Runs of one task follow each other on one machine, whatever each of them comes to.  The
  labels and the index are set anew every time.  The deque, the count of steps and the note
  of a halt are not, and so each run goes on from what the one before has left of them, even
  where it has stopped half-way through an instruction (`Task.Used`).

  A run on such a machine is the run on a fresh one that has got the same deque and that many
  steps less to begin, seen through a view (`View.after`).
-/
import DequeMachine.Proofs.Run.View
import DequeMachine.Proofs.Run.Limit
import DequeMachine.Proofs.Run.Exit

namespace DequeMachine

variable {σ : Type}

/-! ### One run after another -/

/-- A fresh machine with the deque of another one. -/
def Machine.anew (m : Machine) : Machine := { Machine.fresh with deque := m.deque }

namespace Task

/-- A machine and a sink after some runs of a task, with the number of instructions that were
    begun and the events that were accepted in all of them.  The first run is on a fresh
    machine, and each other one on what the one before has left, whatever its result. -/
inductive Used (task : Task) (sink : Sink σ) (first : σ) :
    Machine → σ → Nat → List Event → Prop where
  | fresh : Used task sink first .fresh first 0 []
  | again {m m' : Machine} {s s' : σ} {count n : Nat} {shown : List Event}
      {result : Except Fault Outcome} (h : Used task sink first m s count shown)
      (hend : task.execute? sink n m s = some (result, m', s')) :
      Used task sink first m' s' (count + task.begun sink m s n)
        (shown ++ task.events sink m s n)

/-- The task with as many steps as its limit leaves after those of a machine. -/
def remaining (task : Task) (m : Machine) : Task :=
  task.withLimit (task.config.maxSteps.map (· - m.steps))

/-- A result of what remains of a task, as the result of a run on the machine itself.  The steps
    are added up, a halt that was noted stays, and the limit is the one that was set. -/
def resultOn (task : Task) (m : Machine) : Except Fault Outcome → Except Fault Outcome
  | .ok o => .ok { o with halt := m.halt.getD o.halt, steps := m.steps + o.steps }
  | .error (.stepLimit left) => .error (.stepLimit (task.config.maxSteps.getD left))
  | .error fault => .error fault

namespace Used

variable {task : Task} {sink : Sink σ} {first s : σ} {m : Machine} {count : Nat}
  {shown : List Event}

/-- **The steps are those of all runs.** -/
theorem steps_eq (h : task.Used sink first m s count shown) : m.steps = count := by
  induction h with
  | fresh => rfl
  | @again m m' s s' count n shown result h hend ih =>
    have hsteps := task.steps_run sink m s n
    rw [(task.execute?_eq_some_iff sink m s).mp hend, Run.machine_ended, ih] at hsteps
    exact hsteps

/-- **All runs together keep to the limit.** -/
theorem steps_le (h : task.Used sink first m s count shown) {limit : Nat}
    (hlimit : task.config.maxSteps = some limit) : m.steps ≤ limit := by
  induction h with
  | fresh => exact Nat.zero_le limit
  | @again m m' s s' count n shown result h hend ih =>
    have hle := task.steps_run_le limit sink m s ih n
    rw [withLimit_eq_self hlimit, (task.execute?_eq_some_iff sink m s).mp hend,
      Run.machine_ended] at hle
    exact hle

/-- **A halt is noted once an event has shown it,** and for ever. -/
theorem halt_cases (h : task.Used sink first m s count shown) :
    (m.halt = none ∧ Unasked shown) ∨ (m.halt = some .exit ∧ ∃ values, .exit values ∈ shown) := by
  induction h with
  | fresh => exact .inl ⟨rfl, fun _ he => nomatch he⟩
  | again h hend ih =>
    rcases task.halt_of_ended sink hend with ⟨hhalt, hunasked⟩ | ⟨hhalt, values, hmem⟩
    · rw [hhalt]
      rcases ih with ⟨hnone, hbefore⟩ | ⟨hexit, values, hmem⟩
      · exact .inl ⟨hnone, hbefore.append hunasked⟩
      · exact .inr ⟨hexit, values, List.mem_append_left _ hmem⟩
    · exact .inr ⟨hhalt, values, List.mem_append_right _ hmem⟩

end Used

end Task

/-! ### A run that goes on, seen from a fresh machine -/

/-- A machine that starts anew, as a machine that was used before. -/
def View.after (m : Machine) : View := ⟨id, false, m.steps, m.halt.isSome⟩

namespace View

theorem deque_after (m : Machine) (d : Deque) : (View.after m).deque d = d := by
  apply Deque.ext
  rw [toList_deque]
  rfl

theorem after_keeps (m : Machine) (side : Side) : (View.after m).Keeps side := by
  intro d w
  rw [deque_after, deque_after, side_of_unexchanged rfl]

theorem mapDeque_after (m : Machine) (e : Event) : e.mapDeque (View.after m).values = e := by
  cases e <;> rfl

theorem halted_after {m : Machine} (h : m.halt = none ∨ m.halt = some .exit) (halt : Halt) :
    (if (View.after m).halted then Halt.exit else halt) = m.halt.getD halt := by
  rw [View.after]
  rcases h with hnone | hexit
  · rw [hnone]
    rfl
  · rw [hexit]
    rfl

theorem machine_after {m : Machine} (h : m.halt = none ∨ m.halt = some .exit) :
    (View.after m).machine m.anew = { m with labels := .empty, index := 0 } := by
  have hsteps : 0 + (View.after m).counted = m.steps := Nat.zero_add m.steps
  have hhalt : (if (View.after m).halted then some Halt.exit else none) = m.halt := by
    rw [View.after]
    rcases h with hnone | hexit
    · rw [hnone]
      rfl
    · rw [hexit]
      rfl
  simp only [machine, Machine.anew, Machine.fresh, deque_after, hsteps, hhalt]

end View

namespace Task

variable {task : Task} {m : Machine}

theorem script_after (labels : Labels)
    (hle : ∀ limit, task.config.maxSteps = some limit → m.steps ≤ limit) :
    task.script labels = (View.after m).script ((task.remaining m).script labels) := by
  have hlimit : task.config.maxSteps =
      (task.config.maxSteps.map (· - m.steps)).map (· + m.steps) := by
    cases hmax : task.config.maxSteps with
    | none => rfl
    | some limit =>
      rw [Option.map_some, Option.map_some, Nat.sub_add_cancel (hle limit hmax)]
  rw [View.script_of_unexchanged rfl, script, hlimit]
  rfl

/-- A result on a machine that was used before is what the view shows of it. -/
theorem result_after (hhalt : m.halt = none ∨ m.halt = some .exit)
    (result : Except Fault Outcome)
    (hle : ∀ left, result = .error (.stepLimit left) →
      task.config.maxSteps = some (left + m.steps)) :
    (View.after m).result result = task.resultOn m result := by
  cases result with
  | ok o =>
    have hsteps : o.steps + (View.after m).counted = m.steps + o.steps := Nat.add_comm _ _
    simp only [View.result, View.outcome, resultOn, View.halted_after hhalt, hsteps]
    rfl
  | error fault =>
    cases fault with
    | stepLimit left =>
      simp only [View.result, View.fault, View.after, resultOn, hle left rfl, Option.getD_some]
    | _ => rfl

section Runs

variable {labels : Labels} (hlabels : Labels.ofProgram task.program = .ok labels)
  (hle : ∀ limit, task.config.maxSteps = some limit → m.steps ≤ limit)
  (hhalt : m.halt = none ∨ m.halt = some .exit) (sink : Sink σ) (s : σ) (n : Nat)
include hlabels hle hhalt

/-- **A run that goes on is what the view shows of one that starts anew.** -/
theorem run_after :
    task.run sink m s n =
      (View.after m).run ((task.remaining m).run sink m.anew s n) := by
  have hlabels' : Labels.ofProgram (task.remaining m).program = .ok labels := hlabels
  have hagree : sink.AgreeVia sink (task.remaining m).program.tell
      (fun e => task.program.tell (e.mapDeque (View.after m).values)) Eq := by
    rintro s _ e rfl
    simp only [View.mapDeque_after]
    exact Reply.alike_refl _
  have halike := run_alike_of_view hlabels' hlabels (script_after labels hle)
    (fun _ _ side _ => View.after_keeps m side) hagree m.anew (Eq.refl s) n (.inl rfl)
  have hstart : task.run sink ((View.after m).machine m.anew) s n = task.run sink m s n := by
    simp only [run, start, hlabels, View.machine_after hhalt]
  rw [hstart, task.run_relabel_self hlabels] at halike
  exact halike.eq.symm

theorem events_after :
    task.events sink m s n = (task.remaining m).events sink m.anew s n := by
  rw [events, run_after hlabels hle hhalt sink.recorded (s, []) n, View.state_run, events]

theorem execute?_after :
    (task.execute? sink n m s).map (fun (result, m', s') => (result, m'.deque, s')) =
      ((task.remaining m).execute? sink n m.anew s).map fun (result, m', s') =>
        (task.resultOn m result, m'.deque, s') := by
  rw [execute?_eq_ending?, run_after hlabels hle hhalt sink s n, View.ending?_run, Option.map_map,
    execute?_eq_ending?]
  apply Option.map_congr
  rintro ⟨result, m', s'⟩ hend
  rw [← execute?_eq_ending?, execute?_eq_some_iff] at hend
  have hresult : (View.after m).result result = task.resultOn m result := by
    apply result_after hhalt
    -- the limit that such a result names is what was left of the one that was set
    rintro left rfl
    have hleft := maxSteps_of_run_eq_ended _ _ _ hend
    obtain ⟨limit, hmax, hsub⟩ := Option.map_eq_some_iff.mp hleft
    rw [hmax, ← hsub, Nat.sub_add_cancel (hle limit hmax)]
  have hdeque : ((View.after m).machine m').deque = m'.deque := View.deque_after m m'.deque
  simp only [Function.comp, hresult, hdeque]

end Runs

/-- **A machine can be used again and again.**  After any runs of a task on one machine, whatever
    they came to and whatever the sink has refused, the next one is a run of what remains of
    the task on a fresh machine with the same deque: the events are the same, and so is the
    result, but for the steps that are added up, the halt that stays, and the limit, which is
    named as it was set.  The count of steps is that of the instructions begun in all runs and
    keeps to the limit.  And a halt by request is noted exactly if an event that shows it was
    accepted in some run. -/
theorem used_again {sink : Sink σ} {first s : σ} {count : Nat} {shown : List Event}
    (h : task.Used sink first m s count shown) :
    (∀ n, task.events sink m s n = (task.remaining m).events sink m.anew s n ∧
      (task.execute? sink n m s).map (fun (result, m', s') => (result, m'.deque, s')) =
        ((task.remaining m).execute? sink n m.anew s).map fun (result, m', s') =>
          (task.resultOn m result, m'.deque, s')) ∧
      m.steps = count ∧
      (∀ limit, task.config.maxSteps = some limit → m.steps ≤ limit) ∧
      m.halt ≠ some .endOfProgram ∧
      (m.halt = some .exit ↔ ∃ values, .exit values ∈ shown) := by
  have hhalt : m.halt = none ∨ m.halt = some .exit := h.halt_cases.imp And.left And.left
  have hle : ∀ limit, task.config.maxSteps = some limit → m.steps ≤ limit :=
    fun _ hlimit => h.steps_le hlimit
  refine ⟨?again, h.steps_eq, hle, ?other, ?exit⟩
  case again =>
    intro n
    cases hlabels : Labels.ofProgram task.program with
    | ok labels =>
      exact ⟨events_after hlabels hle hhalt sink s n, execute?_after hlabels hle hhalt sink s n⟩
    | error fault =>
      -- neither run gets to a first turn
      have hlabels' : Labels.ofProgram (task.remaining m).program = .error fault := hlabels
      constructor
      · rw [task.events_of_labels_error sink m s hlabels,
          (task.remaining m).events_of_labels_error sink m.anew s hlabels']
      · have hfault : task.resultOn m (.error fault) = .error fault := by
          have hindex := Labels.index?_isSome_of_error hlabels
          cases fault with
          | stepLimit limit => cases hindex
          | _ => rfl
        rw [task.execute?_of_labels_error sink m s hlabels,
          (task.remaining m).execute?_of_labels_error sink m.anew s hlabels']
        simp only [Option.map_some, hfault, Machine.anew]
  case other =>
    intro hend
    rcases hhalt with hnone | hexit
    · rw [hend] at hnone
      cases hnone
    · rw [hend] at hexit
      cases hexit
  case exit =>
    rcases h.halt_cases with ⟨hnone, hunasked⟩ | ⟨hexit, hshown⟩
    · constructor
      · intro hexit
        rw [hnone] at hexit
        cases hexit
      · rintro ⟨values, hmem⟩
        exact absurd hmem (hunasked.exit_notMem values)
    · exact iff_of_true hexit hshown

/-- A machine whose first request to end was refused and whose second one was not is used a
    third time, with one step left. -/
theorem used_again_refused :
    let task : Task := ⟨⟨#["1.", "exit."]⟩, { maxSteps := some 5 }⟩
    let sink := Journal.sinkRefusing 0 "closed"
    let one : Value := .number (.ofNat 1)
    let d : Deque := Deque.empty.push .right one
    let m : Machine := ⟨d.push .right one, .empty, 3, 4, some .exit⟩
    let j : Journal := ⟨2, #[.exit [one, one]]⟩
    ∃ shown, task.Used sink .empty m j 4 shown ∧ (∃ values, .exit values ∈ shown) ∧
      (task.execute? sink 3 m j).map (fun (result, m', j') => (result, m'.deque, j')) =
        ((task.remaining m).execute? sink 3 m.anew j).map (fun (result, m', j') =>
          (task.resultOn m result, m'.deque, j')) ∧
      (task.execute? sink 3 m j).map (fun (_, m', _) => (m'.steps, m'.deque.toList)) =
        some (5, [one, one, one]) := by
  intro task sink one d m j
  let m₁ : Machine := ⟨d, .empty, 1, 2, none⟩
  have hfirst : (task.execute? sink 3 .fresh .empty).map (fun (_, m', j') => (m', j')) =
      some (m₁, ⟨1, #[]⟩) := by
    decide +kernel
  have hsecond : (task.execute? sink 3 m₁ ⟨1, #[]⟩).map (fun (_, m', j') => (m', j')) =
      some (m, j) := by
    decide +kernel
  obtain ⟨⟨result₁, _, _⟩, hend₁, ⟨⟩⟩ := Option.map_eq_some_iff.mp hfirst
  obtain ⟨⟨result₂, _, _⟩, hend₂, ⟨⟩⟩ := Option.map_eq_some_iff.mp hsecond
  have hcount : 0 + task.begun sink .fresh .empty 3 + task.begun sink m₁ ⟨1, #[]⟩ 3 = 4 := by
    decide +kernel
  have hused := (Used.fresh.again hend₁).again hend₂
  rw [hcount] at hused
  obtain ⟨hagain, _, _, _, hexit⟩ := used_again hused
  exact ⟨_, hused, hexit.mp rfl, (hagain 3).2, by decide +kernel⟩

end Task

end DequeMachine

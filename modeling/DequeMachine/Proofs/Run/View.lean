/-
  DequeMachine/Proofs/Run/View.lean
  =================================
  **A run seen through a view.**

  A view shows a machine with its values rearranged, possibly with its two ends exchanged,
  with more steps on its count, and possibly as one that was halted before.  The question is
  when the run of a script, seen through a view, is itself the run of a script.

  An instruction touches the deque at some ends (`Instruction.ends`).  If a push there looks
  like a push (`View.Keeps`), the whole instruction looks like an instruction (`exec_shows`).
  A pop needs no condition of its own, since what can be popped was pushed.  Only a deque
  without values may look otherwise: if a view shows values where there are none, then
  nothing is said about an instruction that fails for want of one.

  Turn by turn this makes the run of a script, seen through a view, the run of the script as
  the view shows it (`run_shows_script`), and the same holds of programs (`run_shows`).
-/
import DequeMachine.Proofs.Run.Script
import DequeMachine.Proofs.Run.Trace

namespace DequeMachine

variable {σ τ : Type}

theorem Run.Alike.relabel {R : σ → τ → Prop} {a : Run σ} {b : Run τ} (h : Alike R a b)
    (labels : Labels) : Alike R (a.relabel labels) (b.relabel labels) := by
  cases h with
  | going h => exact .going h
  | ended h => exact .ended h

/-! ### Views -/

/-- A way to look at a machine. -/
structure View where
  /-- What the values look like, from left to right. -/
  values : List Value → List Value
  /-- Whether the ends are exchanged. -/
  exchanged : Bool
  /-- How many steps were counted before. -/
  counted : Nat
  /-- Whether there was a halt before. -/
  halted : Bool

/-- The event with other values in the place of the deque. -/
def Event.mapDeque (f : List Value → List Value) : Event → Event
  | .exit values => .exit (f values)
  | .trace values => .trace (f values)
  | .print value => .print value
  | .step index token values => .step index token (f values)

namespace View

variable (v : View)

def side (side : Side) : Side := if v.exchanged then side.opposite else side

def deque (d : Deque) : Deque := .ofList (v.values d.toList)

def machine (m : Machine) : Machine :=
  { m with
    deque := v.deque m.deque
    steps := m.steps + v.counted
    halt := if v.halted then some .exit else m.halt }

/-- A limit on the steps looks as if the steps before were among those allowed. -/
def fault : Fault → Fault
  | .stepLimit limit => .stepLimit (limit + v.counted)
  | fault => fault

def outcome (o : Outcome) : Outcome :=
  ⟨if v.halted then .exit else o.halt, v.values o.values, o.steps + v.counted⟩

def result : Except Fault Outcome → Except Fault Outcome
  | .ok o => .ok (v.outcome o)
  | .error fault => .error (v.fault fault)

def instruction : Instruction → Instruction
  | .perform word side => .perform word (v.side side)
  | .push side x => .push (v.side side) x
  | .skip => .skip
  | .unknown operand => .unknown operand

def effect : Effect → Effect
  | .next m => .next (v.machine m)
  | .offer e accepted refused =>
    .offer (e.mapDeque v.values) (v.machine accepted) (v.machine refused)
  | .fail fault m => .fail (v.fault fault) (v.machine m)

def run : Run σ → Run σ
  | .going m s => .going (v.machine m) s
  | .ended result m s => .ended (v.result result) (v.machine m) s

def script (script : Script) : Script :=
  ⟨script.instructions.map v.instruction, script.trace, script.maxSteps.map (· + v.counted)⟩

@[simp] theorem toList_deque (d : Deque) : (v.deque d).toList = v.values d.toList :=
  Deque.toList_ofList _

@[simp] theorem state_run (run : Run σ) : (v.run run).state = run.state := by
  cases run <;> rfl

@[simp] theorem machine_run (run : Run σ) : (v.run run).machine = v.machine run.machine := by
  cases run <;> rfl

theorem ending?_run (run : Run σ) :
    (v.run run).ending? =
      run.ending?.map fun (result, m, s) => (v.result result, v.machine m, s) := by
  cases run <;> rfl

theorem side_opposite (side : Side) : v.side side.opposite = (v.side side).opposite := by
  unfold View.side
  split <;> rfl

theorem outcome_machine (m : Machine) : (v.machine m).outcome = v.outcome m.outcome := by
  simp only [Machine.outcome, machine, outcome, toList_deque]
  split <;> rfl

theorem run_relabel (labels : Labels) (run : Run σ) :
    v.run (run.relabel labels) = (v.run run).relabel labels := by
  cases run <;> rfl

theorem side_of_unexchanged {v : View} (h : v.exchanged = false) (side : Side) :
    v.side side = side := by
  simp only [View.side, h, Bool.false_eq_true, if_false]

/-- A view that does not exchange the ends shows the same instructions. -/
theorem script_of_unexchanged {v : View} (h : v.exchanged = false) (script : Script) :
    v.script script = { script with maxSteps := script.maxSteps.map (· + v.counted) } := by
  have hsame : ∀ i ∈ script.instructions, v.instruction i = i := by
    intro i _
    cases i <;> simp only [View.instruction, side_of_unexchanged h]
  rw [View.script, List.map_congr_left hsame, List.map_id']

/-- The view that rearranges the values and does nothing else to a machine. -/
def rearranged (values : List Value → List Value) (exchanged : Bool) : View :=
  ⟨values, exchanged, 0, false⟩

section Rearranged

variable (values : List Value → List Value) (exchanged : Bool)

theorem machine_rearranged (m : Machine) :
    (rearranged values exchanged).machine m = { m with deque := .ofList (values m.deque.toList) } :=
  rfl

theorem result_rearranged (result : Except Fault Outcome) :
    (rearranged values exchanged).result result =
      result.map fun o => { o with values := values o.values } := by
  cases result with
  | ok o => rfl
  | error fault => cases fault <;> rfl

theorem script_rearranged (script : Script) :
    (rearranged values exchanged).script script =
      { script with
        instructions := script.instructions.map (rearranged values exchanged).instruction } := by
  obtain ⟨instructions, trace, maxSteps⟩ := script
  cases maxSteps <;> rfl

end Rearranged

/-! ### Instructions -/

/-- A push at an end looks like a push. -/
def Keeps (side : Side) : Prop :=
  ∀ d w, v.deque (d.push side w) = (v.deque d).push (v.side side) w

end View

/-- The ends at which an instruction takes or puts values. -/
def Instruction.ends : Instruction → List Side
  | .perform .move side => [side, side.opposite]
  | .perform _ side => [side]
  | .push side _ => [side]
  | .skip | .unknown _ => []

/-- Does an effect say that a value is missing? -/
def Effect.Starved (effect : Effect) : Prop :=
  ∃ index m, effect = .fail (.emptyDeque index) m

/-- Has a run ended because a value was missing? -/
def Run.Starved (run : Run σ) : Prop :=
  ∃ index m s, run = .ended (.error (.emptyDeque index)) m s

namespace View

variable {v : View}

/-- An effect is what the view shows of another one, unless a value was missing there that
    the view has. -/
inductive Shows (v : View) (a b : Effect) : Prop where
  | same (h : b = v.effect a)
  | starved (hvalues : v.values [] ≠ []) (h : a.Starved)

section Effects

variable {m : Machine} {side : Side}

/-- What can be popped can be seen to be popped. -/
theorem Keeps.pop? (h : v.Keeps side) {d rest : Deque} {w : Value}
    (hpop : d.pop? side = some (w, rest)) :
    (v.deque d).pop? (v.side side) = some (w, v.deque rest) := by
  rw [Deque.pop?_eq_some_iff] at hpop ⊢
  rw [hpop, h]

theorem Keeps.give (h : v.Keeps side) (w : Value) :
    (v.machine m).give (v.side side) w = v.machine (m.give side w) := by
  simp only [Machine.give, machine, h m.deque w]

theorem take_shows {go go' : Value → Machine → Effect} (h : v.Keeps side)
    (hgo : ∀ w m', v.Shows (go w m') (go' w (v.machine m'))) :
    v.Shows (m.take side go) ((v.machine m).take (v.side side) go') := by
  have hdeque : (v.machine m).deque = v.deque m.deque := rfl
  unfold Machine.take
  rw [hdeque]
  rcases hpop : m.deque.pop? side with _ | ⟨w, rest⟩
  · -- nothing to pop here, and so nothing there unless the view makes values up
    by_cases hvalues : v.values [] = []
    · have hseen : (v.deque m.deque).pop? (v.side side) = none := by
        rw [Deque.pop?_eq_none_iff] at hpop ⊢
        rw [toList_deque, hpop, hvalues]
      rw [hseen]
      exact .same rfl
    · exact .starved hvalues ⟨m.index, m, rfl⟩
  · rw [h.pop? hpop]
    exact hgo w { m with deque := rest }

theorem takeTwo_shows {go go' : Value → Value → Machine → Effect} (h : v.Keeps side)
    (hgo : ∀ w x m', v.Shows (go w x m') (go' w x (v.machine m'))) :
    v.Shows (m.takeTwo side go) ((v.machine m).takeTwo (v.side side) go') := by
  apply take_shows h
  intro w m'
  apply take_shows h
  intro x m''
  exact hgo w x m''

theorem jumpTo_shows (target : Value) :
    v.Shows (m.jumpTo target) ((v.machine m).jumpTo target) := by
  apply Shows.same
  unfold Machine.jumpTo
  split
  · split <;> rfl
  · rfl

/-- **What the view shows of an instruction** is the instruction at the ends that the view
    shows. -/
theorem exec_shows (size : Nat) {i : Instruction} (h : ∀ side ∈ i.ends, v.Keeps side) :
    v.Shows (m.exec size i) ((v.machine m).exec size (v.instruction i)) := by
  -- an equation between machines, so that the pushes can be rewritten from the last to the first
  have hnext : ∀ m' m'' : Machine, m'' = v.machine m' →
      v.Shows (.next m'.advance) (.next m''.advance) := by
    rintro m' _ rfl
    exact .same rfl
  cases i with
  | skip => exact .same rfl
  | unknown operand => exact .same rfl
  | push side x => exact hnext _ _ ((h side (by simp [Instruction.ends])).give _)
  | perform word side =>
    have hside : v.Keeps side := by
      apply h
      cases word <;> simp [Instruction.ends]
    unfold Machine.exec Machine.perform View.instruction
    cases word with
    | exit =>
      apply Shows.same
      simp only [effect, Event.mapDeque, machine, toList_deque, ite_self]
    | trace =>
      apply Shows.same
      simp only [effect, Event.mapDeque, machine, toList_deque, Machine.advance]
    | drop =>
      apply take_shows hside
      intro w m'
      exact .same rfl
    | print =>
      apply take_shows hside
      intro w m'
      exact .same rfl
    | jump =>
      apply take_shows hside
      intro target m'
      exact jumpTo_shows target
    | jumpIf =>
      apply takeTwo_shows hside
      intro target condition m'
      by_cases hyes : condition.isTruthy = true
      · simp only [if_pos hyes]
        exact jumpTo_shows target
      · simp only [if_neg hyes]
        exact .same rfl
    | operator op =>
      apply takeTwo_shows hside
      intro w x m'
      exact hnext _ _ (hside.give _)
    | swap =>
      apply takeTwo_shows hside
      intro w x m'
      exact hnext _ _ (by rw [hside.give, hside.give])
    | move =>
      have hopposite : v.Keeps side.opposite := h _ (by simp [Instruction.ends])
      apply take_shows hside
      intro w m'
      exact hnext _ _ (by rw [← side_opposite, hopposite.give])
    | «over» =>
      apply takeTwo_shows hside
      intro w x m'
      exact hnext _ _ (by rw [hside.give, hside.give, hside.give])
    | dup =>
      apply take_shows hside
      intro w m'
      exact hnext _ _ (by rw [hside.give, hside.give])

end Effects

/-! ### Scripts -/

/-- A run is what the view shows of another one, unless that one has ended because a value was
    missing that the view has. -/
inductive RunShows (v : View) (R : σ → τ → Prop) (a : Run σ) (b : Run τ) : Prop where
  | same (h : Run.Alike R (v.run a) b)
  | starved (hvalues : v.values [] ≠ []) (h : a.Starved)

section Scripts

variable {R : σ → τ → Prop} {sink : Sink σ} {sink' : Sink τ}

theorem offer_shows {e e' : Event} {refused : Machine} {s : σ} {t : τ} {go : σ → Run σ}
    {go' : τ → Run τ} (hreply : Reply.Alike R (sink.offer s e) (sink'.offer t e'))
    (hgo : ∀ s t, R s t → v.RunShows R (go s) (go' t)) :
    v.RunShows R (Task.offer sink e s refused go)
      (Task.offer sink' e' t (v.machine refused) go') := by
  unfold Task.offer
  generalize sink.offer s e = reply at hreply
  generalize sink'.offer t e' = reply' at hreply
  cases hreply with
  | accepted h => exact hgo _ _ h
  | refused h => exact .same (.ended h)

variable (hagree : sink.AgreeVia sink' id (Event.mapDeque v.values) R)
include hagree

theorem settle_shows {a b : Effect} (h : v.Shows a b) {s : σ} {t : τ} (hst : R s t) :
    v.RunShows R (Task.settle sink a s) (Task.settle sink' b t) := by
  cases h with
  | starved hvalues h =>
    obtain ⟨index, m, rfl⟩ := h
    exact .starved hvalues ⟨index, m, s, rfl⟩
  | same h =>
    subst h
    cases a with
    | next m => exact .same (.going hst)
    | fail fault m => exact .same (.ended hst)
    | offer e accepted refused =>
      apply offer_shows (hagree s t e hst)
      intro s t hst
      exact .same (.going hst)

variable {script : Script}
  (hkeeps : ∀ i ∈ script.instructions, ∀ side ∈ i.ends, v.Keeps side)
include hkeeps

theorem begin_shows {i : Instruction} (hi : i ∈ script.instructions) (m : Machine) {s : σ} {t : τ}
    (hst : R s t) :
    v.RunShows R (script.begin sink i m s)
      ((v.script script).begin sink' (v.instruction i) (v.machine m) t) := by
  have hlength : (v.script script).instructions.length = script.instructions.length :=
    List.length_map _
  have hmachine : { v.machine m with steps := (v.machine m).steps + 1 } =
      v.machine { m with steps := m.steps + 1 } := by
    simp only [machine, Nat.add_right_comm]
  have htrace : (v.script script).trace = script.trace := rfl
  have hcarry : ∀ s t, R s t →
      v.RunShows R
        (Task.settle sink (({ m with steps := m.steps + 1 } : Machine).exec
          script.instructions.length i) s)
        (Task.settle sink' ((v.machine { m with steps := m.steps + 1 }).exec
          script.instructions.length (v.instruction i)) t) := by
    intro s t hst
    exact settle_shows hagree (exec_shows _ (hkeeps i hi)) hst
  simp only [Script.begin, hmachine, hlength, htrace]
  split
  · refine offer_shows ?_ hcarry
    have hreply := hagree s t (.step m.index "" m.deque.toList) hst
    rw [Event.mapDeque, ← toList_deque] at hreply
    exact hreply
  · exact hcarry s t hst

theorem next_shows {a : Run σ} {b : Run τ} (h : v.RunShows R a b) :
    v.RunShows R (script.next sink a) ((v.script script).next sink' b) := by
  cases h with
  | starved hvalues h =>
    obtain ⟨index, m, s, rfl⟩ := h
    exact .starved hvalues ⟨index, m, s, rfl⟩
  | same h =>
    cases a with
    | ended result m s =>
      cases h with
      | ended h => exact .same (.ended h)
    | going m s =>
      cases h with
      | @going _ _ t hst =>
        have hget : (v.script script).instructions[(v.machine m).index]? =
            (script.instructions[m.index]?).map v.instruction := List.getElem?_map
        -- limit and count are both put up by the same number
        have hlimit : (v.script script).maxSteps.filter (· ≤ (v.machine m).steps) =
            (script.maxSteps.filter (· ≤ m.steps)).map (· + v.counted) := by
          simp only [View.script, machine, Option.filter_map]
          congr 2
          funext limit
          simp
        rcases hi : script.instructions[m.index]? with _ | i
        · rw [hi, Option.map_none] at hget
          simp only [Script.next, hi, hget, outcome_machine]
          exact .same (.ended hst)
        · rw [hi, Option.map_some] at hget
          simp only [Script.next, hi, hget, hlimit]
          cases script.maxSteps.filter (· ≤ m.steps) with
          | some limit => exact .same (.ended hst)
          | none => exact begin_shows hagree hkeeps (List.mem_of_getElem? hi) m hst

/-- **The run of a script, seen through a view, is the run of the script that the view
    shows.** -/
theorem run_shows_script (m : Machine) {s : σ} {t : τ} (hst : R s t) (n : Nat) :
    v.RunShows R (script.run sink m s n) ((v.script script).run sink' (v.machine m) t n) := by
  induction n with
  | zero => exact .same (.going hst)
  | succ n ih => exact next_shows hagree hkeeps ih

end Scripts

/-! ### Programs -/

theorem RunShows.relabel {R : σ → τ → Prop} {a : Run σ} {b : Run τ} (h : v.RunShows R a b)
    (labels : Labels) : v.RunShows R (a.relabel labels) (b.relabel labels) := by
  cases h with
  | starved hvalues h =>
    obtain ⟨index, m, s, rfl⟩ := h
    exact .starved hvalues ⟨index, m.relabel labels, s, rfl⟩
  | same h =>
    apply RunShows.same
    rw [run_relabel]
    exact h.relabel labels

theorem RunShows.alike {R : σ → τ → Prop} {a : Run σ} {b : Run τ} (h : v.RunShows R a b)
    (hfed : v.values [] = [] ∨ ¬a.Starved) : Run.Alike R (v.run a) b := by
  cases h with
  | same h => exact h
  | starved hvalues h =>
    rcases hfed with hempty | hfed
    · exact absurd hempty hvalues
    · exact absurd h hfed

end View

/-- Sinks that accept everything agree, whatever the events look like. -/
theorem Sink.Accepts.agreeVia {sink : Sink σ} {sink' : Sink τ} {good : σ → Prop}
    {good' : τ → Prop} (h : sink.Accepts good) (h' : sink'.Accepts good')
    (look look' : Event → Event) :
    sink.AgreeVia sink' look look' fun s t => good s ∧ good' t := by
  rintro s t e ⟨hs, ht⟩
  obtain ⟨s', haccept, hs'⟩ := h s (look e) hs
  obtain ⟨t', haccept', ht'⟩ := h' t (look' e) ht
  rw [haccept, haccept']
  exact .accepted ⟨hs', ht'⟩

namespace Task

theorem starved_recorded (task : Task) (sink : Sink σ) (m : Machine) (s : σ) (n : Nat) :
    (task.run sink.recorded m (s, []) n).Starved ↔ (task.run sink m s n).Starved := by
  have halike := task.run_recorded sink m s n
  generalize task.run sink.recorded m (s, []) n = a at halike
  generalize task.run sink m s n = b at halike
  cases halike with
  | going h => simp [Run.Starved]
  | ended h => simp [Run.Starved]

section Programs

variable {v : View} {task task' : Task} {labels labels' : Labels}
  (hlabels : Labels.ofProgram task.program = .ok labels)
  (hlabels' : Labels.ofProgram task'.program = .ok labels')
  (hscript : task'.script labels' = v.script (task.script labels))
  (hkeeps : ∀ i ∈ task.meanings labels, ∀ side ∈ i.ends, v.Keeps side)
include hlabels hlabels' hscript hkeeps

/-- **The run of a program, seen through a view, is the run of any program whose script is what
    the view shows,** up to the labels. -/
theorem run_shows {R : σ → τ → Prop} {sink : Sink σ} {sink' : Sink τ}
    (hagree : sink.AgreeVia sink' task.program.tell
      (fun e => task'.program.tell (e.mapDeque v.values)) R)
    (m : Machine) {s : σ} {t : τ} (hst : R s t) (n : Nat) :
    v.RunShows R (task.run sink m s n)
      ((task'.run sink' (v.machine m) t n).relabel labels) := by
  have htold : (sink.toldBy task.program).AgreeVia (sink'.toldBy task'.program) id
      (Event.mapDeque v.values) R := hagree
  rw [task.run_eq_script hlabels, task'.run_eq_script hlabels', Run.relabel_relabel, hscript]
  exact (View.run_shows_script htold hkeeps m hst n).relabel labels

variable {R : σ → τ → Prop} {sink : Sink σ} {sink' : Sink τ}
  (hagree : sink.AgreeVia sink' task.program.tell
    (fun e => task'.program.tell (e.mapDeque v.values)) R)
  (m : Machine) {s : σ} {t : τ} (hst : R s t) (n : Nat)
  (hfed : v.values [] = [] ∨ ¬(task.run sink m s n).Starved)
include hagree hst hfed

theorem run_alike_of_view :
    Run.Alike R (v.run (task.run sink m s n))
      ((task'.run sink' (v.machine m) t n).relabel labels) :=
  (run_shows hlabels hlabels' hscript hkeeps hagree m hst n).alike hfed

theorem machine_of_view :
    (task'.run sink' (v.machine m) t n).machine.relabel labels =
      v.machine (task.run sink m s n).machine := by
  have halike := run_alike_of_view hlabels hlabels' hscript hkeeps hagree m hst n hfed
  rw [← Run.machine_relabel, ← halike.machine_eq, View.machine_run]

theorem execute?_of_view :
    (task'.execute? sink' n (v.machine m) t).map
        (fun (result, m, _) => (result, m.relabel labels)) =
      (task.execute? sink n m s).map fun (result, m, _) => (v.result result, v.machine m) := by
  have halike := run_alike_of_view hlabels hlabels' hscript hkeeps hagree m hst n hfed
  have hending := halike.map_ending? (f := fun (result, m, _) => (result, m))
    (g := fun (result, m, _) => (result, m)) fun _ _ _ _ _ => rfl
  rw [View.ending?_run, Run.ending?_relabel, Option.map_map, Option.map_map] at hending
  rw [execute?_eq_ending?, execute?_eq_ending?]
  exact hending.symm

theorem exists_told_of_view :
    ∃ told : List Event, task.events sink m s n = told.map task.program.tell ∧
      task'.events sink' (v.machine m) t n =
        told.map fun e => task'.program.tell (e.mapDeque v.values) := by
  rw [← task.starved_recorded] at hfed
  have hrecorded : R (s, ([] : List Event)).1 (t, ([] : List Event)).1 ∧
      ∃ told : List Event, [] = told.map task.program.tell ∧
        [] = told.map fun e => task'.program.tell (e.mapDeque v.values) := ⟨hst, [], rfl, rfl⟩
  have hrel := (run_alike_of_view hlabels hlabels' hscript hkeeps hagree.recorded m
    hrecorded n hfed).state_rel
  rw [View.state_run, Run.state_relabel] at hrel
  exact hrel.2

end Programs

/-- The labels of the machine that a run ends with are those of its program. -/
theorem execute?_relabel_self (task : Task) {labels : Labels}
    (hlabels : Labels.ofProgram task.program = .ok labels) (sink : Sink σ) (m : Machine) (s : σ)
    (n : Nat) :
    (task.execute? sink n m s).map (fun (result, m, _) => (result, m.relabel labels)) =
      (task.execute? sink n m s).map fun (result, m, _) => (result, m) := by
  have hself := congrArg (fun run => run.ending?.map fun (result, m, _) => (result, m))
    (task.run_relabel_self hlabels sink m s n)
  simp only [Run.ending?_relabel, Option.map_map] at hself
  rw [execute?_eq_ending?]
  exact hself

end Task

end DequeMachine

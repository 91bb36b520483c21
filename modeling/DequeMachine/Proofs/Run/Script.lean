/-
  DequeMachine/Proofs/Run/Script.lean
  ===================================
  **Programs whose meanings are worked out beforehand.**

  A run takes a token apart each time it comes to it, with the labels that its machine
  knows.  A script is what is left when this is done once for all tokens: a row of
  instructions, without tokens and without labels.  The run of a program is the run of its
  script (`run_script`), up to the labels that its machine carries along and the tokens
  that its steps show.

  So two programs with the same script run alike (`run_alike_of_script`), whatever their
  tokens look like, as long as their sinks do not answer differently to the different
  tokens.

  Labels are read where a token gets its meaning and nowhere else: carrying out an
  instruction neither reads nor changes them (`exec_relabel`).
-/
import DequeMachine.Proofs.Run.Record

namespace DequeMachine

variable {σ τ : Type}

/-! ### Other labels -/

/-- The machine with other labels. -/
def Machine.relabel (labels : Labels) (m : Machine) : Machine := { m with labels }

def Effect.relabel (labels : Labels) : Effect → Effect
  | .next m => .next (m.relabel labels)
  | .offer e accepted refused => .offer e (accepted.relabel labels) (refused.relabel labels)
  | .fail fault m => .fail fault (m.relabel labels)

def Run.relabel (labels : Labels) : Run σ → Run σ
  | .going m s => .going (m.relabel labels) s
  | .ended result m s => .ended result (m.relabel labels) s

@[simp] theorem Run.relabel_relabel (labels labels' : Labels) (run : Run σ) :
    (run.relabel labels).relabel labels' = run.relabel labels' := by
  cases run <;> rfl

theorem Run.machine_relabel (labels : Labels) (run : Run σ) :
    (run.relabel labels).machine = run.machine.relabel labels := by
  cases run <;> rfl

theorem Run.ending?_relabel (labels : Labels) (run : Run σ) :
    (run.relabel labels).ending? =
      run.ending?.map fun (result, m, s) => (result, m.relabel labels, s) := by
  cases run <;> rfl

@[simp] theorem Run.state_relabel (labels : Labels) (run : Run σ) :
    (run.relabel labels).state = run.state := by
  cases run <;> rfl

namespace Machine

variable (labels : Labels) (m : Machine)

theorem jumpTo_relabel (target : Value) :
    (m.relabel labels).jumpTo target = (m.jumpTo target).relabel labels := by
  unfold jumpTo
  split
  · split <;> rfl
  · rfl

/-- **An instruction does the same whatever the labels are.** -/
theorem exec_relabel (size : Nat) (i : Instruction) :
    (m.relabel labels).exec size i = (m.exec size i).relabel labels := by
  obtain ⟨act, _, hcomes⟩ := i.exec_does m.deque
  rw [hcomes size (m.relabel labels) rfl, hcomes size m rfl]
  cases act with
  | jump target deque => exact jumpTo_relabel labels { m with deque } target
  | _ => rfl

end Machine

namespace Task

theorem offer_relabel (labels : Labels) (sink : Sink σ) (e : Event) (s : σ) (refused : Machine)
    (go : σ → Run σ) :
    (offer sink e s refused go).relabel labels =
      offer sink e s (refused.relabel labels) fun t => (go t).relabel labels := by
  unfold offer
  split <;> rfl

theorem settle_relabel (labels : Labels) (sink : Sink σ) (effect : Effect) (s : σ) :
    (settle sink effect s).relabel labels = settle sink (effect.relabel labels) s := by
  cases effect with
  | next m => rfl
  | fail fault m => rfl
  | offer e accepted refused => exact offer_relabel labels sink e s refused _

end Task

/-! ### Scripts -/

/-- Instructions in a row, with the settings for carrying them out. -/
structure Script where
  instructions : List Instruction
  trace : Bool
  maxSteps : Option Nat

namespace Script

/-- Count an instruction, show it if the steps are traced, and carry it out.  There is no
    token to be shown. -/
def begin (script : Script) (sink : Sink σ) (i : Instruction) (m : Machine) (s : σ) : Run σ :=
  let m := { m with steps := m.steps + 1 }
  let carryOut := Task.settle sink (m.exec script.instructions.length i)
  if script.trace then Task.offer sink (.step m.index "" m.deque.toList) s m carryOut
  else carryOut s

/-- The state of a script's run after one more instruction. -/
def next (script : Script) (sink : Sink σ) : Run σ → Run σ
  | .ended result m s => .ended result m s
  | .going m s =>
    match script.instructions[m.index]? with
    | none => .ended (.ok m.outcome) m s
    | some i =>
      match script.maxSteps.filter (· ≤ m.steps) with
      | some limit => .ended (.error (.stepLimit limit)) m s
      | none => script.begin sink i m s

/-- The run of a script on a machine, after so many turns. -/
def run (script : Script) (sink : Sink σ) (m : Machine) (s : σ) : Nat → Run σ
  | 0 => .going { m with index := 0 } s
  | n + 1 => script.next sink (script.run sink m s n)

end Script

/-- The meanings of the tokens of a task, one after another. -/
def Task.meanings (task : Task) (labels : Labels) : List Instruction :=
  task.program.tokens.toList.map (.ofToken task.config.rule labels)

/-- What the tokens of a task say, one after another. -/
def Task.decoded (task : Task) : List Decoded :=
  task.program.tokens.toList.map (Token.decode task.config.rule)

theorem Task.meanings_eq_map_decoded (task : Task) (labels : Labels) :
    task.meanings labels = task.decoded.map (Instruction.ofDecoded labels) := by
  rw [decoded, List.map_map]
  rfl

/-- The script of a task. -/
def Task.script (task : Task) (labels : Labels) : Script :=
  ⟨task.meanings labels, task.config.trace, task.config.maxSteps⟩

/-! ### Telling -/

/-- An event as a program tells it: a step shows the program's own token. -/
def Program.tell (p : Program) : Event → Event
  | .step index _ values => .step index ((p.get? index).getD "") values
  | e => e

/-- A sink that is told everything by a program. -/
def Sink.toldBy (sink : Sink σ) (p : Program) : Sink σ where
  offer s e := sink.offer s (p.tell e)

/-- Two sinks answer alike to the same event, told by one program and by another. -/
def Sink.AgreeOn (sink : Sink σ) (sink' : Sink τ) (p q : Program) (R : σ → τ → Prop) : Prop :=
  ∀ s t e, R s t → Reply.Alike R (sink.offer s (p.tell e)) (sink'.offer t (q.tell e))

theorem Program.tell_of_not_isStep (p : Program) {e : Event} (h : e.isStep = false) :
    p.tell e = e := by
  cases e with
  | step index token values => cases h
  | _ => rfl

theorem Program.tell_step {p : Program} {index : Nat} {token : String} (other : String)
    (values : List Value) (h : p.get? index = some token) :
    p.tell (.step index other values) = .step index token values := by
  simp only [tell, h, Option.getD_some]

/-- Two sinks answer alike to what an event looks like on one side and on the other. -/
def Sink.AgreeVia (sink : Sink σ) (sink' : Sink τ) (look look' : Event → Event)
    (R : σ → τ → Prop) : Prop :=
  ∀ s t e, R s t → Reply.Alike R (sink.offer s (look e)) (sink'.offer t (look' e))

/-- Sinks that agree still do when both keep a record, and their records show the same. -/
theorem Sink.AgreeVia.recorded {sink : Sink σ} {sink' : Sink τ} {look look' : Event → Event}
    {R : σ → τ → Prop} (h : sink.AgreeVia sink' look look' R) :
    sink.recorded.AgreeVia sink'.recorded look look' fun s t =>
      R s.1 t.1 ∧ ∃ told : List Event, s.2 = told.map look ∧ t.2 = told.map look' := by
  rintro ⟨s, _⟩ ⟨t, _⟩ e ⟨hst, told, rfl, rfl⟩
  have hreply := h s t e hst
  simp only [Sink.recorded]
  generalize sink.offer s (look e) = reply at hreply
  generalize sink'.offer t (look' e) = reply' at hreply
  cases hreply with
  | accepted h => exact .accepted ⟨h, told ++ [e], by simp, by simp⟩
  | refused h => exact .refused ⟨h, told, rfl, rfl⟩

/-- Journals that refuse the same number agree, whatever the events look like. -/
theorem Journal.sinkRefusing_agreeVia (number : Nat) (reason : String)
    (look look' : Event → Event) :
    (sinkRefusing number reason).AgreeVia (sinkRefusing number reason) look look' fun j j' =>
      j.offered = j'.offered := by
  intro j j' e h
  simp only [sinkRefusing, h]
  split
  · exact .refused (congrArg (· + 1) h)
  · exact .accepted (congrArg (· + 1) h)

theorem Journal.sinkRefusing_agreeOn (number : Nat) (reason : String) (p q : Program) :
    (sinkRefusing number reason).AgreeOn (sinkRefusing number reason) p q fun j j' =>
      j.offered = j'.offered :=
  sinkRefusing_agreeVia number reason p.tell q.tell

/-! ### A program beside its script -/

namespace Task

theorem get?_meanings (task : Task) (labels : Labels) (index : Nat) :
    (task.script labels).instructions[index]? =
      (task.program.get? index).map (.ofToken task.config.rule labels) := by
  rw [script, meanings, Program.get?, List.getElem?_map, Array.getElem?_toList]

section Simulation

variable (task : Task) (labels : Labels) {R : σ → τ → Prop} {sink : Sink σ} {sink' : Sink τ}
  (htold : ∀ s t e, R s t → Reply.Alike R (sink.offer s (task.program.tell e)) (sink'.offer t e))
include htold

theorem carryOut_script (token : String) (m : Machine) (s : σ) (t : τ) (h : R s t) :
    Run.Alike R (task.carryOut sink token (m.relabel labels) s)
      ((settle sink' (m.exec (task.script labels).instructions.length
        (.ofToken task.config.rule labels token)) t).relabel labels) := by
  have hsize : (task.script labels).instructions.length = task.program.size := by
    simp [script, meanings, Program.size]
  rw [settle_relabel, hsize, ← Machine.exec_relabel]
  apply settle_alike h
  intro e he
  rw [Machine.event?_exec] at he
  -- only a step shows a token, and an instruction itself offers no step
  have hown := task.program.tell_of_not_isStep (Instruction.isStep_of_shows he)
  rw [← hown]
  have hreply := htold s t e h
  rwa [hown] at hreply ⊢

theorem begin_script {token : String} {m : Machine} {s : σ} {t : τ} (h : R s t)
    (htoken : task.program.get? m.index = some token) :
    Run.Alike R (task.begin sink token (m.relabel labels) s)
      (((task.script labels).begin sink' (.ofToken task.config.rule labels token) m t).relabel
        labels) := by
  have hcarry := task.carryOut_script labels htold token { m with steps := m.steps + 1 }
  have htrace : (task.script labels).trace = task.config.trace := rfl
  simp only [begin, Script.begin, htrace]
  by_cases hon : task.config.trace = true
  · simp only [if_pos hon, offer_relabel]
    refine offer_alike ?_ hcarry
    have hreply := htold s t (.step m.index "" m.deque.toList) h
    rwa [Program.tell_step "" _ htoken] at hreply
  · simp only [if_neg hon]
    exact hcarry s t h

theorem next_script {a : Run σ} {b : Run τ} (h : Run.Alike R a (b.relabel labels)) :
    Run.Alike R (task.next sink a) (((task.script labels).next sink' b).relabel labels) := by
  cases b with
  | ended result m t =>
    cases h with
    | ended h => exact .ended h
  | going m t =>
    cases h with
    | going h =>
      have hget := task.get?_meanings labels m.index
      rcases htoken : task.program.get? m.index with _ | token
      · have htoken' : task.program.get? (m.relabel labels).index = none := htoken
        rw [htoken, Option.map_none] at hget
        simp only [next, Script.next, htoken', hget]
        exact .ended h
      · have htoken' : task.program.get? (m.relabel labels).index = some token := htoken
        rw [htoken, Option.map_some] at hget
        simp only [next, Script.next, htoken', hget]
        have hlimit : task.limitReached? (m.relabel labels) =
            (task.script labels).maxSteps.filter (· ≤ m.steps) := rfl
        rw [hlimit]
        cases (task.script labels).maxSteps.filter (· ≤ m.steps) with
        | some limit => exact .ended h
        | none => exact task.begin_script labels htold h htoken

/-- **The run of a program is the run of its script.** -/
theorem run_script (hlabels : Labels.ofProgram task.program = .ok labels) (m : Machine) {s : σ}
    {t : τ} (h : R s t) (n : Nat) :
    Run.Alike R (task.run sink m s n) (((task.script labels).run sink' m t n).relabel labels) := by
  induction n with
  | zero =>
    rw [run_zero, start, hlabels]
    exact .going h
  | succ n ih =>
    rw [run_succ]
    exact task.next_script labels htold ih

end Simulation

/-- **A run is the interpretation of its script,** with a sink that is told the tokens. -/
theorem run_eq_script (task : Task) {labels : Labels}
    (hlabels : Labels.ofProgram task.program = .ok labels) (sink : Sink σ) (m : Machine) (s : σ)
    (n : Nat) :
    task.run sink m s n =
      ((task.script labels).run (sink.toldBy task.program) m s n).relabel labels := by
  have htold : ∀ s t e, s = t → Reply.Alike Eq (sink.offer s (task.program.tell e))
      ((sink.toldBy task.program).offer t e) := by
    rintro s _ e rfl
    exact Reply.alike_refl _
  exact (task.run_script labels htold hlabels m rfl n).eq

/-- The labels of a program are those that its machine carries along. -/
theorem run_relabel_self (task : Task) {labels : Labels}
    (hlabels : Labels.ofProgram task.program = .ok labels) (sink : Sink σ) (m : Machine) (s : σ)
    (n : Nat) : (task.run sink m s n).relabel labels = task.run sink m s n := by
  rw [run_eq_script task hlabels, Run.relabel_relabel]

/-! ### Two programs with one script -/

section Pair

variable {task task' : Task} {labels labels' : Labels}
  (hlabels : Labels.ofProgram task.program = .ok labels)
  (hlabels' : Labels.ofProgram task'.program = .ok labels')
  (hscript : task.script labels = task'.script labels')
  {R : σ → τ → Prop} {sink : Sink σ} {sink' : Sink τ} (m : Machine)
include hlabels hlabels' hscript

/-- **Programs with the same script run alike,** up to their labels. -/
theorem run_alike_of_script (hagree : sink.AgreeOn sink' task.program task'.program R) {s : σ}
    {t : τ} (h : R s t) (n : Nat) :
    Run.Alike R (task.run sink m s n) ((task'.run sink' m t n).relabel labels) := by
  have htold : ∀ s t e, R s t → Reply.Alike R (sink.offer s (task.program.tell e))
      ((sink'.toldBy task'.program).offer t e) := hagree
  rw [task'.run_eq_script hlabels', Run.relabel_relabel, ← hscript]
  exact task.run_script labels htold hlabels m h n

/-- Programs with the same script show the same events, each as it tells them. -/
theorem exists_told (hagree : sink.AgreeOn sink' task.program task'.program R) {s : σ} {t : τ}
    (h : R s t) (n : Nat) :
    ∃ told : List Event, task.events sink m s n = told.map task.program.tell ∧
      task'.events sink' m t n = told.map task'.program.tell := by
  have hvia : sink.AgreeVia sink' task.program.tell task'.program.tell R := hagree
  have hrecorded : sink.recorded.AgreeOn sink'.recorded task.program task'.program _ :=
    hvia.recorded
  have halike : Run.Alike _ (task.run sink.recorded m (s, []) n)
      ((task'.run sink'.recorded m (t, []) n).relabel labels) :=
    run_alike_of_script hlabels hlabels' hscript m hrecorded ⟨h, [], rfl, rfl⟩ n
  have hrel := halike.state_rel
  rw [Run.state_relabel] at hrel
  exact hrel.2

end Pair

theorem execute?_alike_of_relabel {task task' : Task} {labels : Labels} {R : σ → τ → Prop}
    {sink : Sink σ} {sink' : Sink τ} {m : Machine} {s : σ} {t : τ} {n : Nat}
    (h : Run.Alike R (task.run sink m s n) ((task'.run sink' m t n).relabel labels)) :
    (task.execute? sink n m s).map (fun (result, m, _) => (result, m.relabel .empty)) =
      (task'.execute? sink' n m t).map (fun (result, m, _) => (result, m.relabel .empty)) := by
  have hending := h.map_ending? (f := fun (result, m, _) => (result, m.relabel .empty))
    (g := fun (result, m, _) => (result, m.relabel .empty)) fun _ _ _ _ _ => rfl
  rw [Run.ending?_relabel, Option.map_map] at hending
  rw [execute?_eq_ending?, execute?_eq_ending?]
  exact hending

/-- **The meanings of the tokens determine the run.**  Two programs whose labels can be
    collected and whose tokens mean the same, one after another, come to the same result
    and the same machine, up to the labels, with the same settings and sinks that agree on
    what they are told.  They show the same events, each with its own tokens.  And either
    run is what comes of interpreting the meanings, worked out once before the start. -/
theorem meanings_determine_run {task task' : Task} {labels labels' : Labels}
    (hlabels : Labels.ofProgram task.program = .ok labels)
    (hlabels' : Labels.ofProgram task'.program = .ok labels')
    (hmeanings : task.meanings labels = task'.meanings labels')
    (htrace : task.config.trace = task'.config.trace)
    (hmaxSteps : task.config.maxSteps = task'.config.maxSteps)
    {R : σ → τ → Prop} {sink : Sink σ} {sink' : Sink τ}
    (hagree : sink.AgreeOn sink' task.program task'.program R) (m : Machine) {s : σ} {t : τ}
    (h : R s t) (n : Nat) :
    (task.execute? sink n m s).map (fun (result, m, _) => (result, m.relabel .empty)) =
        (task'.execute? sink' n m t).map (fun (result, m, _) => (result, m.relabel .empty)) ∧
      (∃ told : List Event, task.events sink m s n = told.map task.program.tell ∧
        task'.events sink' m t n = told.map task'.program.tell) ∧
      let script : Script := ⟨task.meanings labels, task.config.trace, task.config.maxSteps⟩
      task.run sink m s n = (script.run (sink.toldBy task.program) m s n).relabel labels ∧
        task'.run sink' m t n =
          (script.run (sink'.toldBy task'.program) m t n).relabel labels' := by
  have hscript : task.script labels = task'.script labels' := by
    simp only [script, hmeanings, htrace, hmaxSteps]
  refine ⟨?result, ?events, ?script, ?script'⟩
  case result =>
    exact execute?_alike_of_relabel
      (run_alike_of_script hlabels hlabels' hscript m hagree h n)
  case events => exact exists_told hlabels hlabels' hscript m hagree h n
  case script => exact task.run_eq_script hlabels sink m s n
  case script' =>
    have hrun := task'.run_eq_script hlabels' sink' m t n
    rw [← hscript] at hrun
    exact hrun

/-- A renamed label, another literal for the same number and the other strip rule make no
    difference, not even to a journal that refuses an event. -/
theorem meanings_determine_run_renamed :
    let task : Task := ⟨⟨#["a:", "1.", "a.", "print.", "print."]⟩, { trace := true }⟩
    let task' : Task :=
      ⟨⟨#["b:", "0x1", "b", "print", "print"]⟩, { rule := .labelOnly, trace := true }⟩
    let sink := Journal.sinkRefusing 6 "closed"
    task.meanings ⟨[("a", 0)]⟩ = task'.meanings ⟨[("b", 0)]⟩ ∧
      (task.execute? sink 5 .fresh .empty).map (fun (result, m, _) => (result, m.relabel .empty)) =
        (task'.execute? sink 5 .fresh .empty).map
          (fun (result, m, _) => (result, m.relabel .empty)) ∧
      ∃ told : List Event, task.events sink .fresh .empty 5 = told.map task.program.tell ∧
        task'.events sink .fresh .empty 5 = told.map task'.program.tell := by
  intro task task' sink
  have hmeanings : task.meanings ⟨[("a", 0)]⟩ = task'.meanings ⟨[("b", 0)]⟩ := by
    decide +kernel
  obtain ⟨hresult, hevents, _⟩ := meanings_determine_run rfl rfl
    hmeanings rfl rfl (Journal.sinkRefusing_agreeOn 6 "closed" _ _) .fresh rfl 5
  exact ⟨hmeanings, hresult, hevents⟩

end Task

end DequeMachine

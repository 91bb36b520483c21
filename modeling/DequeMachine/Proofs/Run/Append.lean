/-
  DequeMachine/Proofs/Run/Append.lean
  ===================================
  **One program behind another.**

  Two programs without jumps and labels are put in a row, and the first one does not ask for
  the end.  As long as the first one goes on, the run of both is the run of the first
  (`run_append_of_le`).  If it comes to its end, the machine stands at the first token of the
  second program with nothing but the deque to tell of what was before, and from there on the
  run of both is the run of the second, with its indices and steps shifted (`run_append_add`).

  The sink is left out of the comparison.  It has seen the events of the first program in one
  case and not in the other, so the sink of the second run need not be where that of the run
  of both is.  Since it accepts everything, nothing depends on that.
-/
import DequeMachine.Proofs.Labels
import DequeMachine.Proofs.Run.Straight
import DequeMachine.Proofs.Run.Trace

namespace DequeMachine

variable {σ : Type}

/-! ### Programs in a row -/

namespace Program

instance : Append Program where
  append p q := ⟨p.tokens ++ q.tokens⟩

variable (p q : Program)

theorem toList_tokens_append :
    (p ++ q).tokens.toList = p.tokens.toList ++ q.tokens.toList :=
  Array.toList_append

theorem size_append : (p ++ q).size = p.size + q.size := Array.size_append

variable {p}

theorem get?_append_left {index : Nat} (h : index < p.size) :
    (p ++ q).get? index = p.get? index :=
  Array.getElem?_append_left h

variable (p) {q}

theorem get?_append_right (index : Nat) : (p ++ q).get? (index + p.size) = q.get? index := by
  refine (Array.getElem?_append_right (Nat.le_add_left _ _)).trans ?_
  exact congrArg q.get? (Nat.add_sub_cancel index p.size)

end Program

/-! ### The same thing further on -/

/-- A fresh machine with a deque. -/
def Machine.holding (d : Deque) : Machine := { fresh with deque := d }

/-- The machine so many tokens further on in a straight line. -/
def Machine.shift (k : Nat) (m : Machine) : Machine :=
  { m with index := m.index + k, steps := m.steps + k }

/-- The event so many tokens further on. -/
def Event.shift (k : Nat) : Event → Event
  | .step index token values => .step (index + k) token values
  | e => e

/-- The fault so many tokens further on. -/
def Fault.shift (k : Nat) : Fault → Fault
  | .duplicateLabel index name => .duplicateLabel (index + k) name
  | .emptyDeque index => .emptyDeque (index + k)
  | .unknownToken index operand => .unknownToken (index + k) operand
  | .unknownLabel index target => .unknownLabel (index + k) target
  | .invalidTarget index target => .invalidTarget (index + k) target
  | .stepLimit limit => .stepLimit limit
  | .output index reason => .output (index + k) reason

def Effect.shift (k : Nat) : Effect → Effect
  | .next m => .next (m.shift k)
  | .offer e accepted refused => .offer (e.shift k) (accepted.shift k) (refused.shift k)
  | .fail fault m => .fail (fault.shift k) (m.shift k)

/-- The result of a run after so many steps that were taken before. -/
def shiftResult (k : Nat) : Except Fault Outcome → Except Fault Outcome
  | .ok o => .ok { o with steps := o.steps + k }
  | .error fault => .error (fault.shift k)

def Run.shift (k : Nat) : Run σ → Run σ
  | .going m s => .going (m.shift k) s
  | .ended result m s => .ended (shiftResult k result) (m.shift k) s

theorem Event.shift_of_not_isStep {e : Event} (h : e.isStep = false) (k : Nat) :
    e.shift k = e := by
  cases e with
  | step index token values => cases h
  | _ => rfl

namespace Machine

/-- Only an `exit` looks at the size of the program. -/
theorem exec_of_ne_exit {i : Instruction} (h : ∀ side, i ≠ .perform .exit side)
    (size size' : Nat) (m : Machine) : m.exec size i = m.exec size' i := by
  obtain ⟨act, hdoes, hcomes⟩ := i.exec_does m.deque
  rw [hcomes size m rfl, hcomes size' m rfl]
  cases hdoes with
  | halt side => exact absurd rfl (h side)
  | _ => rfl

/-- **An instruction that does not jump does the same further on.** -/
theorem exec_shift {i : Instruction} (h : i.isJump = false) (k size : Nat) (m : Machine) :
    (m.shift k).exec (size + k) i = (m.exec size i).shift k := by
  obtain ⟨act, hdoes, hcomes⟩ := i.exec_does m.deque
  rw [hcomes size m rfl, hcomes (size + k) (m.shift k) rfl]
  cases hdoes with
  | go i deque hsilent => simp [Act.effect, Effect.shift, shift, Nat.add_right_comm]
  | print side v rest hdeque =>
    simp [Act.effect, Effect.shift, Event.shift, shift, Nat.add_right_comm]
  | trace side => simp [Act.effect, Effect.shift, Event.shift, shift, Nat.add_right_comm]
  | halt side => simp [Act.effect, Effect.shift, Event.shift, shift, Nat.add_right_comm]
  | jump side target rest hdeque => cases h
  | jumpIf side target condition rest hdeque hyes => cases h
  | starve word side hfew => rfl
  | unknown operand => rfl

end Machine

namespace Task

/-! ### The first program -/

section First

variable {p q : Program} {config : Config} (sink : Sink σ)

theorem begin_append {token : String} {m : Machine}
    (hexit : ∀ side, Instruction.ofToken config.rule m.labels token ≠ .perform .exit side) (s : σ) :
    (Task.mk (p ++ q) config).begin sink token m s = (Task.mk p config).begin sink token m s := by
  have hshown : (Task.mk (p ++ q) config).announce sink token m s =
      (Task.mk p config).announce sink token m s := rfl
  cases hreply : (Task.mk p config).announce sink token m s with
  | refused reason t =>
    rw [begin_of_refused sink hreply, begin_of_refused sink (hshown.trans hreply)]
  | accepted t =>
    rw [begin_of_accepted sink hreply, begin_of_accepted sink (hshown.trans hreply), carryOut,
      carryOut]
    exact congrArg (settle sink · t) (Machine.exec_of_ne_exit hexit _ _ _)

variable (hp : p.Avoids config.rule [.exit, .jump, .jumpIf])
  (hlabels : Labels.ofProgram p = .ok .empty) (m : Machine) (s : σ)
include hp hlabels

/-- The first program does not ask for the end, so that every run of it is going, or has failed,
    or is past the last token. -/
theorem run_cases_of_first (n : Nat) :
    (∃ d t, n ≤ p.size ∧ (Task.mk p config).run sink m s n =
      .going ⟨d, .empty, n, m.steps + n, m.halt⟩ t) ∨
    (∃ fault m' t, (Task.mk p config).run sink m s n = .ended (.error fault) m' t) ∨
    (p.size < n ∧ ∃ o m' t, (Task.mk p config).run sink m s n = .ended (.ok o) m' t) := by
  have hline : (Task.mk p config).OnLine m n ((Task.mk p config).run sink m s n) :=
    run_onLine (hp.mono (by simp)) hlabels sink m s n
  have hexit : p.Avoids config.rule [.exit] := hp.mono (by simp)
  have hknown := (Task.mk p config).labels_run sink m s hlabels n
  generalize (Task.mk p config).run sink m s n = run at hline hknown
  cases hline with
  | going m' t hindex hle hsteps hhalt =>
    obtain ⟨d, labels, index, steps, halt⟩ := m'
    obtain rfl : labels = .empty := hknown
    obtain rfl : index = n := hindex
    obtain rfl : steps = m.steps + index := hsteps
    obtain rfl : halt = m.halt := hhalt
    exact .inl ⟨d, t, hle, rfl⟩
  | leaving m' t hindex hhalt hasked => exact absurd hexit hasked
  | left o m' t hhalt hasked => exact absurd hexit hasked
  | passed o m' t hlt hsteps => exact .inr (.inr ⟨hlt, o, m', t, rfl⟩)
  | failed fault m' t => exact .inr (.inl ⟨fault, m', t, rfl⟩)

variable (hfree : config.maxSteps = none) (hboth : Labels.ofProgram (p ++ q) = .ok .empty)
include hfree hboth

/-- **The run of both programs is at first that of the first one.** -/
theorem run_append_of_le {n : Nat} (hn : n ≤ p.size) :
    (Task.mk (p ++ q) config).run sink m s n = (Task.mk p config).run sink m s n := by
  induction n with
  | zero =>
    have hstart : (Task.mk (p ++ q) config).start m s = (Task.mk p config).start m s := by
      simp only [start, hlabels, hboth]
    rw [run_zero, run_zero, hstart]
  | succ n ih =>
    rw [run_succ, run_succ, ih (Nat.le_of_succ_le hn)]
    rcases run_cases_of_first sink hp hlabels m s n with
      ⟨d, t, _, hrun⟩ | ⟨fault, m', t, hrun⟩ | ⟨hlt, _⟩
    · obtain ⟨token, htoken⟩ : ∃ token, p.get? n = some token :=
        ⟨_, Array.getElem?_eq_getElem hn⟩
      have hsame := (Program.get?_append_left q hn).trans htoken
      have hfirst : (Task.mk p config).next sink _ = _ :=
        next_going (m := ⟨d, .empty, n, m.steps + n, m.halt⟩) sink t htoken
          (limitReached?_of_free hfree _)
      have hrow : (Task.mk (p ++ q) config).next sink _ = _ :=
        next_going (m := ⟨d, .empty, n, m.steps + n, m.halt⟩) sink t hsame
          (limitReached?_of_free hfree _)
      rw [hrun, hfirst, hrow]
      exact begin_append sink (hp.ne_perform htoken (by simp) _) t
    · rw [hrun, next, next]
    · omega

end First

/-! ### The second program -/

section Second

variable {p q : Program} {config : Config} {sink : Sink σ} {good : σ → Prop} {k : Nat}

/-- The run of the second program, shifted, is where the run of both is, and both sinks are
    good. -/
abbrev Shifted (good : σ → Prop) (k : Nat) (a b : Run σ) : Prop :=
  Run.Alike (fun s t => good s ∧ good t) (a.shift k) b

theorem settle_shift (haccepts : sink.Accepts good) (effect : Effect) {s t : σ} (hs : good s)
    (ht : good t) :
    Shifted good k (settle sink effect s) (settle sink (effect.shift k) t) := by
  cases effect with
  | next m => exact .going ⟨hs, ht⟩
  | fail fault m => exact .ended ⟨hs, ht⟩
  | offer e accepted refused =>
    obtain ⟨s', hreply, hs'⟩ := haccepts s e hs
    obtain ⟨t', hreply', ht'⟩ := haccepts t (e.shift k) ht
    simp only [settle, Effect.shift, offer, hreply, hreply']
    exact .going ⟨hs', ht'⟩

theorem exists_announce_eq (haccepts : sink.Accepts good) (task : Task) (token : String)
    (m : Machine) {s : σ} (hs : good s) :
    ∃ t, task.announce sink token m s = .accepted t ∧ good t := by
  unfold announce
  split
  · exact haccepts s _ hs
  · exact ⟨s, rfl, hs⟩

theorem begin_shift (haccepts : sink.Accepts good) {token : String} {m : Machine}
    (hjump : (Instruction.ofToken config.rule m.labels token).isJump = false) {s t : σ}
    (hs : good s) (ht : good t) :
    Shifted good p.size ((Task.mk q config).begin sink token m s)
      ((Task.mk (p ++ q) config).begin sink token (m.shift p.size) t) := by
  obtain ⟨s', hshown, hs'⟩ := exists_announce_eq haccepts (.mk q config) token m hs
  obtain ⟨t', hshown', ht'⟩ :=
    exists_announce_eq haccepts (.mk (p ++ q) config) token (m.shift p.size) ht
  have hcounted : ({ m.shift p.size with steps := (m.shift p.size).steps + 1 } : Machine) =
      ({ m with steps := m.steps + 1 } : Machine).shift p.size := by
    simp [Machine.shift, Nat.add_right_comm]
  have hsize : (p ++ q).size = q.size + p.size := by
    rw [Program.size_append, Nat.add_comm]
  have hexec := Machine.exec_shift hjump p.size q.size { m with steps := m.steps + 1 }
  rw [begin_of_accepted sink hshown, begin_of_accepted sink hshown', carryOut, carryOut, hcounted,
    hsize]
  exact hexec ▸ settle_shift haccepts _ hs' ht'

/-- **A turn of the second program is the same turn further on.** -/
theorem next_shift (haccepts : sink.Accepts good) (hfree : config.maxSteps = none)
    (hq : q.Avoids config.rule [.jump, .jumpIf]) {a b : Run σ} (h : Shifted good p.size a b) :
    Shifted good p.size ((Task.mk q config).next sink a)
      ((Task.mk (p ++ q) config).next sink b) := by
  cases a with
  | ended result m s =>
    cases h with
    | ended h => exact .ended h
  | going m s =>
    cases h with
    | @going _ _ t h =>
      have hsame : (p ++ q).get? (m.shift p.size).index = q.get? m.index :=
        Program.get?_append_right p m.index
      cases htoken : q.get? m.index with
      | none =>
        have hend := hsame.trans htoken
        simp only [next, htoken, hend]
        exact .ended h
      | some token =>
        rw [next_going sink s htoken (limitReached?_of_free hfree _),
          next_going sink t (hsame.trans htoken) (limitReached?_of_free hfree _)]
        exact begin_shift haccepts (hq.isJump_eq_false (by simp) (by simp) htoken _) h.1 h.2

section Shown

variable (hfree : config.maxSteps = none) {a b : Run σ} (h : Shifted good p.size a b)
include hfree h

theorem beginning?_shift :
    (Task.mk (p ++ q) config).beginning? b =
      ((Task.mk q config).beginning? a).map fun (m, token) => (m.shift p.size, token) := by
  cases a with
  | ended result m s =>
    cases h with
    | ended h => rfl
  | going m s =>
    cases h with
    | @going _ _ t h =>
      have hsame : (p ++ q).get? (m.shift p.size).index = q.get? m.index :=
        Program.get?_append_right p m.index
      have hrow : (Task.mk (p ++ q) config).limitReached? (m.shift p.size) = none :=
        limitReached?_of_free hfree _
      have hsecond : (Task.mk q config).limitReached? m = none := limitReached?_of_free hfree _
      simp only [beginning?, hsame, hrow, hsecond]
      cases q.get? m.index <;> rfl

theorem shown_shift :
    (Task.mk (p ++ q) config).shown b =
      ((Task.mk q config).shown a).map (Event.shift p.size) := by
  have hbegin := beginning?_shift hfree h (q := q)
  cases hturn : (Task.mk q config).beginning? a with
  | none =>
    rw [hturn] at hbegin
    rw [shown_eq_nil _ hturn, shown_eq_nil _ hbegin, List.map_nil]
  | some turn =>
    obtain ⟨m, token⟩ := turn
    rw [hturn] at hbegin
    simp only [shown, hturn, hbegin, Option.map_some]
    have hown : (((Task.mk q config).instruction m token).shows m.deque).toList.map
        (Event.shift p.size) = (((Task.mk q config).instruction m token).shows m.deque).toList := by
      refine (List.map_congr_left fun e he => ?_).trans (List.map_id' _)
      exact Event.shift_of_not_isStep (isStep_of_mem_shows he) p.size
    split
    · rw [List.map_cons, hown]
      rfl
    · exact hown.symm

end Shown

section Runs

variable (haccepts : sink.Accepts good) (hfree : config.maxSteps = none)
  (hq : q.Avoids config.rule [.jump, .jumpIf]) (hlabels : Labels.ofProgram q = .ok .empty)
  {m : Machine} {d : Deque} {s s' t : σ} (hs : good s) (hs' : good s')
  (hreach : (Task.mk (p ++ q) config).run sink m s p.size =
    .going ((Machine.holding d).shift p.size) t)
include haccepts hfree hq hlabels hs hs' hreach

/-- **Behind the first program, the run of both is that of the second, shifted.** -/
theorem run_append_add (n : Nat) :
    Shifted good p.size ((Task.mk q config).run sink (.holding d) s' n)
      ((Task.mk (p ++ q) config).run sink m s (p.size + n)) := by
  induction n with
  | zero =>
    have ht := (Task.mk (p ++ q) config).good_run haccepts m hs p.size
    rw [hreach] at ht
    rw [run_zero, start, hlabels, Nat.add_zero, hreach]
    exact .going ⟨hs', ht⟩
  | succ n ih =>
    rw [run_succ, ← Nat.add_assoc, run_succ]
    exact next_shift haccepts hfree hq ih

theorem events_append_add (n : Nat) :
    (Task.mk (p ++ q) config).events sink m s (p.size + n) =
      (Task.mk (p ++ q) config).events sink m s p.size ++
        ((Task.mk q config).events sink (.holding d) s' n).map (Event.shift p.size) := by
  induction n with
  | zero =>
    have hnone : (Task.mk q config).events sink (.holding d) s' 0 = [] := by
      rw [events_eq_flatMap _ haccepts _ hs']
      rfl
    rw [hnone, List.map_nil, List.append_nil, Nat.add_zero]
  | succ n ih =>
    have hrun := run_append_add haccepts hfree hq hlabels hs hs' hreach n
    rw [← Nat.add_assoc, events_succ _ haccepts m hs, events_succ _ haccepts _ hs', ih,
      shown_shift hfree hrun, List.map_append, List.append_assoc]

end Runs

end Second

/-! ### Both programs -/

/-- What was shown when a run ended is all that it shows. -/
theorem events_of_ended {task : Task} {sink : Sink σ} {m m' : Machine} {s s' : σ}
    {result : Except Fault Outcome} {n k : Nat} (h : task.run sink m s n = .ended result m' s')
    (hle : n ≤ k) : task.events sink m s k = task.events sink m s n := by
  have hrecorded := (task.run_recorded_eq_ended_iff sink m s).mpr ⟨h, rfl⟩
  have hlater := task.run_of_ended sink.recorded m (s, []) hrecorded hle
  exact ((task.run_recorded_eq_ended_iff sink m s).mp hlater).2

/-- A turn behind the last token ends the run and shows nothing. -/
theorem ended_of_passed {p : Program} {config : Config} {sink : Sink σ} {good : σ → Prop}
    (haccepts : sink.Accepts good) {m : Machine} {d₁ : Deque} {s t : σ} (hs : good s)
    (hrun : (Task.mk p config).run sink m s p.size =
      .going ((Machine.holding d₁).shift p.size) t) :
    (Task.mk p config).run sink m s (p.size + 1) =
        .ended (.ok ((Machine.holding d₁).shift p.size).outcome)
          ((Machine.holding d₁).shift p.size) t ∧
      (Task.mk p config).events sink m s (p.size + 1) =
        (Task.mk p config).events sink m s p.size := by
  have hpast : p.size ≤ ((Machine.holding d₁).shift p.size).index := Nat.le_add_left _ _
  have hnone : (Task.mk p config).beginning? ((Task.mk p config).run sink m s p.size) = none := by
    rw [hrun]
    simp only [beginning?, Program.get?_eq_none hpast]
  constructor
  · rw [run_succ, hrun]
    exact next_of_size_le sink t hpast
  · rw [events_succ _ haccepts m hs, shown_eq_nil _ hnone, List.append_nil]

section Row

variable {p q : Program} {config : Config} {sink : Sink σ}
  (hp : p.Avoids config.rule [.exit, .jump, .jumpIf]) (hfree : config.maxSteps = none)
  (hlabels : Labels.ofProgram p = .ok .empty) (hboth : Labels.ofProgram (p ++ q) = .ok .empty)
  {d : Deque} {s : σ}
include hp hfree hlabels hboth

theorem events_append_of_le {m : Machine} :
    (Task.mk (p ++ q) config).events sink m s p.size =
      (Task.mk p config).events sink m s p.size :=
  congrArg (·.state.2)
    (run_append_of_le sink.recorded hp hlabels m (s, []) hfree hboth (Nat.le_refl _))

/-- **If the first program fails, the second one is not begun.** -/
theorem append_of_failed {fault : Fault} {m₁ : Machine} {t : σ}
    (hrun : (Task.mk p config).run sink (.holding d) s p.size = .ended (.error fault) m₁ t)
    {n : Nat} (hn : p.size ≤ n) :
    (Task.mk (p ++ q) config).run sink (.holding d) s n = .ended (.error fault) m₁ t ∧
      (Task.mk (p ++ q) config).events sink (.holding d) s n =
        (Task.mk p config).events sink (.holding d) s p.size := by
  have hsame := (run_append_of_le sink hp hlabels (.holding d) s hfree hboth (Nat.le_refl _)).trans
    hrun
  refine ⟨(Task.mk (p ++ q) config).run_of_ended sink (.holding d) s hsame hn, ?_⟩
  rw [events_of_ended hsame hn, events_append_of_le hp hfree hlabels hboth]

variable {good : σ → Prop} (haccepts : sink.Accepts good)
  (hq : q.Avoids config.rule [.jump, .jumpIf]) (hlabels' : Labels.ofProgram q = .ok .empty)
include haccepts hq hlabels'

/-- **If the first program comes to its end, the second one goes on from its deque.** -/
theorem append_of_passed {d₁ : Deque} {s' t : σ} (hs : good s) (hs' : good s')
    (hrun : (Task.mk p config).run sink (.holding d) s p.size =
      .going ((Machine.holding d₁).shift p.size) t) :
    ∃ result m₂ s₂ s₃,
      (Task.mk q config).run sink (.holding d₁) s' (q.size + 1) = .ended result m₂ s₂ ∧
      (Task.mk (p ++ q) config).run sink (.holding d) s (p.size + (q.size + 1)) =
        .ended (shiftResult p.size result) (m₂.shift p.size) s₃ ∧
      (Task.mk (p ++ q) config).events sink (.holding d) s (p.size + (q.size + 1)) =
        (Task.mk p config).events sink (.holding d) s p.size ++
          ((Task.mk q config).events sink (.holding d₁) s' (q.size + 1)).map
            (Event.shift p.size) := by
  have hreach := (run_append_of_le sink hp hlabels (.holding d) s hfree hboth (Nat.le_refl _)).trans
    hrun
  obtain ⟨result, m₂, s₂, hsecond⟩ : ∃ result m₂ s₂,
      (Task.mk q config).run sink (.holding d₁) s' (q.size + 1) = .ended result m₂ s₂ :=
    exists_ended_of_straight hq hlabels' sink (.holding d₁) s'
  have hshift := run_append_add haccepts hfree hq hlabels' hs hs' hreach (q.size + 1)
  have hevents := events_append_add haccepts hfree hq hlabels' hs hs' hreach (q.size + 1)
  rw [events_append_of_le hp hfree hlabels hboth] at hevents
  rw [hsecond] at hshift
  generalize (Task.mk (p ++ q) config).run sink (.holding d) s (p.size + (q.size + 1)) = run
    at hshift
  cases hshift with
  | @ended _ _ _ s₃ h => exact ⟨result, m₂, s₂, s₃, hsecond, rfl, hevents⟩

end Row

/-- **Programs without jumps end and can be put in a row.** -/
theorem straight_ends_and_composes :
    (∀ {σ : Type} (task : Task) (labels : Labels) (sink : Sink σ) (m : Machine) (s : σ),
      Labels.ofProgram task.program = .ok labels →
      task.program.Avoids task.config.rule [.jump, .jumpIf] →
      (∃ result m' s', task.execute? sink (task.program.size + 1) m s = some (result, m', s')) ∧
      (∀ n before token, task.beginning? (task.run sink m s n) = some (before, token) →
        before.index = n) ∧
      ∀ n o m' s', task.execute? sink n m s = some (.ok o, m', s') → o.halt = .endOfProgram →
        o.steps = m.steps + task.program.size) ∧
    ∀ {σ : Type} (p q : Program) (config : Config) (sink : Sink σ) (good : σ → Prop)
      (d : Deque) (s s' : σ), config.maxSteps = none → sink.Accepts good → good s → good s' →
      p.Avoids config.rule [.exit, .jump, .jumpIf] → q.Avoids config.rule [.jump, .jumpIf] →
      (∀ token ∈ (p ++ q).tokens.toList, Token.labelName? token = none) →
      ∃ result m₁ s₁,
        (Task.mk p config).execute? sink (p.size + 1) (.holding d) s = some (result, m₁, s₁) ∧
        match result with
        | .error fault =>
          (Task.mk (p ++ q) config).execute? sink (p.size + q.size + 1) (.holding d) s =
              some (.error fault, m₁, s₁) ∧
            (Task.mk (p ++ q) config).events sink (.holding d) s (p.size + q.size + 1) =
              (Task.mk p config).events sink (.holding d) s (p.size + 1)
        | .ok o =>
          o.steps = p.size ∧ ∃ result₂ m₂ s₂ s₃,
            (Task.mk q config).execute? sink (q.size + 1) (.holding m₁.deque) s' =
              some (result₂, m₂, s₂) ∧
            (Task.mk (p ++ q) config).execute? sink (p.size + q.size + 1) (.holding d) s =
              some (shiftResult p.size result₂, m₂.shift p.size, s₃) ∧
            (Task.mk (p ++ q) config).events sink (.holding d) s (p.size + q.size + 1) =
              (Task.mk p config).events sink (.holding d) s (p.size + 1) ++
                ((Task.mk q config).events sink (.holding m₁.deque) s' (q.size + 1)).map
                  (Event.shift p.size) := by
  constructor
  · intro σ task labels sink m s hlabels hstraight
    refine ⟨?_, ?_, ?_⟩
    · obtain ⟨result, m', s', hend⟩ := exists_ended_of_straight hstraight hlabels sink m s
      exact ⟨result, m', s', (task.execute?_eq_some_iff sink m s).mpr hend⟩
    · intro n before token h
      exact index_of_beginning? hstraight hlabels sink m s h
    · intro n o m' s' h hhalt
      exact steps_of_endOfProgram hstraight hlabels sink m s
        ((task.execute?_eq_some_iff sink m s).mp h) hhalt
  · intro σ p q config sink good d s s' hfree haccepts hs hs' hp hq hnone
    have hboth : Labels.ofProgram (p ++ q) = .ok .empty := Labels.ofProgram_of_unlabelled hnone
    rw [Program.toList_tokens_append, List.forall_mem_append] at hnone
    have hlabels : Labels.ofProgram p = .ok .empty := Labels.ofProgram_of_unlabelled hnone.1
    have hlabels' : Labels.ofProgram q = .ok .empty := Labels.ofProgram_of_unlabelled hnone.2
    have hsizes : p.size + q.size + 1 = p.size + (q.size + 1) := Nat.add_assoc _ _ _
    simp only [execute?_eq_some_iff, hsizes]
    rcases run_cases_of_first sink hp hlabels (.holding d) s p.size with
      ⟨d₁, t, _, hrun⟩ | ⟨fault, m₁, t, hrun⟩ | ⟨hlt, _⟩
    · have hholding : (⟨d₁, .empty, p.size, (Machine.holding d).steps + p.size,
          (Machine.holding d).halt⟩ : Machine) = (Machine.holding d₁).shift p.size := by
        simp [Machine.holding, Machine.shift, Machine.fresh]
      rw [hholding] at hrun
      obtain ⟨hend, hquiet⟩ := ended_of_passed haccepts hs hrun
      rw [hquiet]
      exact ⟨_, _, t, hend, Nat.zero_add _,
        append_of_passed hp hfree hlabels hboth haccepts hq hlabels' hs hs' hrun⟩
    · have hend := (Task.mk p config).run_of_ended sink (.holding d) s hrun (Nat.le_succ _)
      rw [events_of_ended hrun (Nat.le_succ _)]
      exact ⟨_, m₁, t, hend, append_of_failed hp hfree hlabels hboth hrun (Nat.le_add_right _ _)⟩
    · exact absurd hlt (Nat.lt_irrefl _)

/-- The second program fails for want of a second value, and so do both in a row, two tokens
    further on. -/
theorem straight_ends_and_composes_starving :
    let p : Program := ⟨#["1.", "print."]⟩
    let q : Program := ⟨#["2.", "swap."]⟩
    let task (program : Program) : Task := ⟨program, { trace := true }⟩
    (∃ m j, (task q).execute? Journal.sink 3 (.holding .empty) .empty =
        some (.error (.emptyDeque 1), m, j)) ∧
      ∃ m j, (task (p ++ q)).execute? Journal.sink 5 (.holding .empty) .empty =
        some (.error (.emptyDeque 3), m, j) := by
  intro p q task
  have haccepts : Journal.sink.Accepts (fun _ => True) := fun _ _ _ => ⟨_, rfl, trivial⟩
  have hp : p.Avoids .trailing [.exit, .jump, .jumpIf] := by
    unfold Program.Avoids
    decide +kernel
  have hq : q.Avoids .trailing [.jump, .jumpIf] := by
    unfold Program.Avoids
    decide +kernel
  have hnone : ∀ token ∈ (p ++ q).tokens.toList, Token.labelName? token = none := by
    decide +kernel
  obtain ⟨result, m₁, s₁, hfirst, hrow⟩ := straight_ends_and_composes.2 p q { trace := true }
    Journal.sink (fun _ => True) .empty .empty .empty rfl haccepts trivial trivial hp hq hnone
  have hgood : ((task p).execute? Journal.sink 3 (.holding .empty) .empty).map
      (fun ending => (ending.1, ending.2.1.deque)) =
      some (.ok ⟨.endOfProgram, [], 2⟩, .empty) := by
    decide +kernel
  have hfails : ((task q).execute? Journal.sink 3 (.holding .empty) .empty).map (·.1) =
      some (.error (.emptyDeque 1)) := by
    decide +kernel
  replace hfirst : (task p).execute? Journal.sink 3 (.holding .empty) .empty =
    some (result, m₁, s₁) := hfirst
  rw [hfirst, Option.map_some, Option.some.injEq, Prod.mk.injEq] at hgood
  obtain ⟨rfl, hdeque⟩ := hgood
  obtain ⟨_, result₂, m₂, s₂, s₃, hsecond, hboth, _⟩ := hrow
  replace hsecond : (task q).execute? Journal.sink 3 (.holding m₁.deque) .empty =
    some (result₂, m₂, s₂) := hsecond
  rw [hdeque] at hsecond
  rw [hsecond, Option.map_some, Option.some.injEq] at hfails
  obtain rfl := hfails
  exact ⟨⟨m₂, s₂, hsecond⟩, _, s₃, hboth⟩

end Task

end DequeMachine

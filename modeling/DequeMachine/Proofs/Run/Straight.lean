/-
  DequeMachine/Proofs/Run/Straight.lean
  =====================================
  **Programs without jumps.**

  A program that asks for no jump goes along a line.  As long as a run of it is going, the
  number of turns is the index of the next token and also the number of steps so far, and
  there are two ways to come off the line without a fault: behind the last token, and by an
  `exit` (`Task.OnLine`, `run_onLine`).  So the run ends, and no token is begun twice.
-/
import DequeMachine.Proofs.Run.Basic

namespace DequeMachine

variable {σ : Type}

/-! ### Words that a program does without -/

/-- No token of a program has one of these instruction words. -/
def Program.Avoids (p : Program) (rule : StripRule) (words : List Mnemonic) : Prop :=
  ∀ token ∈ p.tokens.toList, ∀ word ∈ words,
    Mnemonic.ofName? (Token.decode rule token).operand ≠ some word

namespace Program

variable {p : Program} {rule : StripRule} {words : List Mnemonic}

theorem Avoids.mono {words' : List Mnemonic} (h : p.Avoids rule words) (hsub : words' ⊆ words) :
    p.Avoids rule words' :=
  fun token htoken word hword => h token htoken word (hsub hword)

theorem Avoids.ne_perform (h : p.Avoids rule words) {index : Nat} {token : String}
    (htoken : p.get? index = some token) {word : Mnemonic} (hword : word ∈ words) (labels : Labels)
    (side : Side) : Instruction.ofToken rule labels token ≠ .perform word side := by
  intro hperform
  exact h token (mem_of_get? htoken) word hword
    (Instruction.ofToken_eq_perform_iff.mp hperform).ofName?_eq

theorem Avoids.isJump_eq_false (h : p.Avoids rule words) (hjump : .jump ∈ words)
    (hjumpIf : .jumpIf ∈ words) {index : Nat} {token : String}
    (htoken : p.get? index = some token) (labels : Labels) :
    (Instruction.ofToken rule labels token).isJump = false := by
  have hne := h.ne_perform htoken hjump labels
  have hneIf := h.ne_perform htoken hjumpIf labels
  generalize Instruction.ofToken rule labels token = i at hne hneIf
  unfold Instruction.isJump
  split
  · exact absurd rfl (hne _)
  · exact absurd rfl (hneIf _)
  · rfl

end Program

/-! ### Along the line -/

namespace Task

/-- Where a run from a machine may be after so many turns if nothing jumps. -/
inductive OnLine (task : Task) (first : Machine) (turns : Nat) : Run σ → Prop where
  | going (m : Machine) (s : σ) (hindex : m.index = turns) (hle : turns ≤ task.program.size)
      (hsteps : m.steps = first.steps + turns) (hhalt : m.halt = first.halt) :
      OnLine task first turns (.going m s)
  | leaving (m : Machine) (s : σ) (hindex : m.index = task.program.size + 1)
      (hhalt : m.halt = some .exit) (hasked : ¬ task.program.Avoids task.config.rule [.exit]) :
      OnLine task first turns (.going m s)
  | left (o : Outcome) (m : Machine) (s : σ) (hhalt : o.halt = .exit)
      (hasked : ¬ task.program.Avoids task.config.rule [.exit]) :
      OnLine task first turns (.ended (.ok o) m s)
  | passed (o : Outcome) (m : Machine) (s : σ) (hlt : task.program.size < turns)
      (hsteps : o.steps = first.steps + task.program.size) :
      OnLine task first turns (.ended (.ok o) m s)
  | failed (fault : Fault) (m : Machine) (s : σ) :
      OnLine task first turns (.ended (.error fault) m s)

section Turns

variable {task : Task} (sink : Sink σ) {first : Machine} {turns : Nat}

theorem settle_onLine {m : Machine} (hindex : m.index = turns) (hlt : turns < task.program.size)
    (hsteps : m.steps = first.steps + (turns + 1)) (hhalt : m.halt = first.halt)
    {i : Instruction} (hjump : i.isJump = false)
    (hasked : ∀ side, i = .perform .exit side → ¬ task.program.Avoids task.config.rule [.exit])
    (s : σ) :
    task.OnLine first (turns + 1) (settle sink (m.exec task.program.size i) s) := by
  obtain ⟨act, hdoes, hcomes⟩ := i.exec_does m.deque
  rw [hcomes task.program.size m rfl]
  have hgoing : ∀ deque (t : σ), task.OnLine first (turns + 1)
      (.going { m with deque, index := m.index + 1 } t) := by
    intro deque t
    exact .going _ t (congrArg (· + 1) hindex) hlt hsteps hhalt
  have hoffer : ∀ e deque, task.OnLine first (turns + 1) (settle sink
      (.offer e { m with deque, index := m.index + 1 } { m with deque }) s) := by
    intro e deque
    simp only [settle, offer]
    split
    · exact hgoing deque _
    · exact .failed _ _ _
  cases hdoes with
  | go i deque hsilent => exact hgoing deque s
  | print side v rest hdeque => exact hoffer _ rest
  | trace side => exact hoffer _ m.deque
  | halt side =>
    simp only [Act.effect, settle, offer]
    split
    · exact .leaving _ _ rfl rfl (hasked side rfl)
    · exact .failed _ _ _
  | jump side target rest hdeque => cases hjump
  | jumpIf side target condition rest hdeque hyes => cases hjump
  | starve word side hfew => exact .failed _ _ _
  | unknown operand => exact .failed _ _ _

variable (hstraight : task.program.Avoids task.config.rule [.jump, .jumpIf])
include hstraight

/-- **A turn stays on the line or comes off it at its end.** -/
theorem next_onLine {run : Run σ} (h : task.OnLine first turns run) :
    task.OnLine first (turns + 1) (task.next sink run) := by
  cases h with
  | going m s hindex hle hsteps hhalt =>
    cases htoken : task.program.get? m.index with
    | none =>
      have hsize : task.program.size ≤ m.index := Array.getElem?_eq_none_iff.mp htoken
      rw [next_of_size_le sink s hsize]
      obtain rfl : task.program.size = turns := Nat.le_antisymm (hindex ▸ hsize) hle
      exact .passed _ _ _ (Nat.lt_succ_self _) hsteps
    | some token =>
      cases hlimit : task.limitReached? m with
      | some limit =>
        rw [next_limitReached sink s htoken hlimit]
        exact .failed _ _ _
      | none =>
        rw [next_going sink s htoken hlimit]
        cases hshown : task.announce sink token m s with
        | refused reason t =>
          rw [begin_of_refused sink hshown]
          exact .failed _ _ _
        | accepted t =>
          rw [begin_of_accepted sink hshown]
          have hlt := Program.lt_size_of_get? htoken
          refine settle_onLine (m := { m with steps := m.steps + 1 }) sink hindex
            (hindex ▸ hlt) (congrArg (· + 1) hsteps) hhalt
            (hstraight.isJump_eq_false (by simp) (by simp) htoken _) ?_ t
          intro side hexit havoids
          exact havoids.ne_perform htoken (List.mem_singleton_self _) _ side hexit
  | leaving m s hindex hhalt hasked =>
    rw [next_of_size_le sink s (hindex ▸ Nat.le_succ _)]
    refine .left _ _ _ ?_ hasked
    rw [Machine.outcome, hhalt, Option.getD_some]
  | left o m s hhalt hasked => exact .left o m s hhalt hasked
  | passed o m s hlt hsteps => exact .passed o m s (Nat.lt_succ_of_lt hlt) hsteps
  | failed fault m s => exact .failed fault m s

end Turns

section Runs

variable {task : Task}
  (hstraight : task.program.Avoids task.config.rule [.jump, .jumpIf])
  {labels : Labels} (hlabels : Labels.ofProgram task.program = .ok labels)
  (sink : Sink σ) (m : Machine) (s : σ)
include hstraight hlabels

theorem run_onLine (n : Nat) : task.OnLine m n (task.run sink m s n) := by
  induction n with
  | zero =>
    rw [run_zero, start, hlabels]
    exact .going _ s rfl (Nat.zero_le _) rfl rfl
  | succ n ih =>
    rw [run_succ]
    exact next_onLine sink hstraight ih

/-- **A run without jumps ends,** behind the last token at the latest. -/
theorem exists_ended_of_straight :
    ∃ result m' s', task.run sink m s (task.program.size + 1) = .ended result m' s' := by
  have hline := run_onLine hstraight hlabels sink m s task.program.size
  rw [run_succ]
  generalize task.run sink m s task.program.size = run at hline
  cases hline with
  | going m' s' hindex hle hsteps hhalt =>
    exact ⟨_, _, _, next_of_size_le sink s' (Nat.le_of_eq hindex.symm)⟩
  | leaving m' s' hindex hhalt hasked =>
    exact ⟨_, _, _, next_of_size_le sink s' (hindex ▸ Nat.le_succ _)⟩
  | left o m' s' hhalt hasked => exact ⟨_, _, _, rfl⟩
  | passed o m' s' hlt hsteps => exact ⟨_, _, _, rfl⟩
  | failed fault m' s' => exact ⟨_, _, _, rfl⟩

/-- **The tokens are begun in their order,** and none of them twice. -/
theorem index_of_beginning? {n : Nat} {before : Machine} {token : String}
    (h : task.beginning? (task.run sink m s n) = some (before, token)) : before.index = n := by
  obtain ⟨⟨t, hgoing⟩, htoken, _⟩ := beginning?_eq_some_iff.mp h
  have hline := run_onLine hstraight hlabels sink m s n
  rw [hgoing] at hline
  cases hline with
  | going _ _ hindex hle hsteps hhalt => exact hindex
  | leaving _ _ hindex hhalt hasked =>
    have hlt := Program.lt_size_of_get? htoken
    rw [hindex] at hlt
    exact absurd hlt (Nat.not_succ_lt_self)

/-- **The end of the program is reached only through all of it.** -/
theorem steps_of_endOfProgram {n : Nat} {o : Outcome} {m' : Machine} {s' : σ}
    (h : task.run sink m s n = .ended (.ok o) m' s') (hhalt : o.halt = .endOfProgram) :
    o.steps = m.steps + task.program.size := by
  have hline := run_onLine hstraight hlabels sink m s n
  rw [h] at hline
  cases hline with
  | left _ _ _ hexit hasked =>
    rw [hhalt] at hexit
    cases hexit
  | passed _ _ _ hlt hsteps => exact hsteps

end Runs

end Task

end DequeMachine

/-
  DequeMachine/Proofs/Run/Quiet.lean
  ==================================
  **Programs that only fill the deque.**

  An instruction is quiet if it puts a number on the deque or does nothing.  A program
  of quiet instructions carries them out one after another and comes to its end by
  itself; all that becomes of it is the deque, and nothing is offered to the sink
  (`execute?_of_quiet`).
-/
import DequeMachine.Proofs.Run.Basic

namespace DequeMachine

variable {σ : Type}

/-! ### Quiet instructions -/

namespace Instruction

/-- Does an instruction put a number on the deque, or nothing, and go on? -/
def isQuiet : Instruction → Bool
  | .skip | .push .. => true
  | .perform .. | .unknown _ => false

/-- The deque after a quiet instruction. -/
def fill (d : Deque) : Instruction → Deque
  | .push side x => d.push side (.number x)
  | _ => d

end Instruction

theorem Machine.exec_of_isQuiet {i : Instruction} (h : i.isQuiet = true) (size : Nat)
    (m : Machine) :
    m.exec size i = .next { m with deque := i.fill m.deque, index := m.index + 1 } := by
  cases i with
  | skip => rfl
  | push side x => rfl
  | perform word side => cases h
  | unknown operand => cases h

namespace Task

/-! ### Quiet programs -/

/-- The deque after the first instructions of a program, if they are quiet. -/
def filled (task : Task) (labels : Labels) (d : Deque) (n : Nat) : Deque :=
  ((task.program.tokens.toList.take n).map
    (Instruction.ofToken task.config.rule labels)).foldl Instruction.fill d

section Quiet

variable {task : Task} {labels : Labels}
  (hlabels : Labels.ofProgram task.program = .ok labels)
  (hplain : task.config.trace = false) (hfree : task.config.maxSteps = none)
  (hquiet : ∀ token ∈ task.program.tokens.toList,
    (Instruction.ofToken task.config.rule labels token).isQuiet = true)
  (sink : Sink σ) (m : Machine) (state : σ)
include hlabels hplain hfree hquiet

/-- **A quiet program carries out one token after another,** and the sink is left
    alone. -/
theorem run_of_quiet {n : Nat} (hn : n ≤ task.program.size) :
    task.run sink m state n =
      .going { m with
        deque := task.filled labels m.deque n
        labels
        index := n
        steps := m.steps + n } state := by
  induction n with
  | zero =>
    rw [run_zero, start, hlabels]
    rfl
  | succ n ih =>
    have hlt : n < task.program.tokens.toList.length := by
      rw [Array.length_toList]
      exact hn
    have htoken : task.program.get? n = some task.program.tokens.toList[n] := by
      rw [Program.get?, ← Array.getElem?_toList, List.getElem?_eq_getElem hlt]
    have hfilled : task.filled labels m.deque (n + 1) =
        (Instruction.ofToken task.config.rule labels task.program.tokens.toList[n]).fill
          (task.filled labels m.deque n) := by
      simp only [filled, List.take_succ_eq_append_getElem hlt, List.map_append, List.foldl_append]
      rfl
    rw [run_succ, ih (Nat.le_of_succ_le hn),
      next_going sink state htoken (limitReached?_of_free hfree _),
      begin_of_accepted sink (announce_of_untraced sink hplain _ _ state), carryOut, instruction,
      Machine.exec_of_isQuiet (hquiet _ (List.getElem_mem hlt)), hfilled]
    rfl

/-- **A quiet program ends by itself, with nothing shown and the deque filled.** -/
theorem execute?_of_quiet :
    task.execute? sink (task.program.size + 1) m state =
      let d := task.filled labels m.deque task.program.size
      let steps := m.steps + task.program.size
      some (.ok ⟨m.halt.getD .endOfProgram, d.toList, steps⟩,
        { m with deque := d, labels, index := task.program.size, steps }, state) := by
  rw [execute?_eq_some_iff, run_succ,
    run_of_quiet hlabels hplain hfree hquiet sink m state (Nat.le_refl _)]
  exact next_of_size_le sink state (Nat.le_refl _)

/-- **A quiet program never gets to the sink.** -/
theorem state_run_of_quiet (n : Nat) : (task.run sink m state n).state = state := by
  by_cases hn : n ≤ task.program.size
  · rw [run_of_quiet hlabels hplain hfree hquiet sink m state hn, Run.state_going]
  · have hend := execute?_of_quiet hlabels hplain hfree hquiet sink m state
    rw [task.run_of_ended sink m state ((task.execute?_eq_some_iff sink m state).mp hend)
      (Nat.lt_of_not_le hn), Run.state_ended]

end Quiet

/-- A program that puts nothing on the deque leaves it alone. -/
theorem filled_of_skip {task : Task} {labels : Labels}
    (hskip : ∀ token ∈ task.program.tokens.toList,
      Instruction.ofToken task.config.rule labels token = .skip) (d : Deque) (n : Nat) :
    task.filled labels d n = d := by
  unfold filled
  apply List.foldlRecOn (motive := (· = d)) _ _ rfl
  rintro _ rfl i hi
  obtain ⟨token, htoken, rfl⟩ := List.mem_map.mp hi
  rw [hskip token (List.mem_of_mem_take htoken)]
  rfl

end Task

end DequeMachine

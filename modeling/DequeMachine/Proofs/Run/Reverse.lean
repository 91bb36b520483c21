/-
  DequeMachine/Proofs/Run/Reverse.lean
  ====================================
  **The two ends are alike.**

  Two programs are opposite if their tokens say the same things about opposite ends.  Started
  on a deque and on its reverse, they go through the same indices, and wherever they are,
  the deque of one is the reverse of the deque of the other.

  This is the view that reverses the values and exchanges the ends.  A push at an end looks
  like a push at the other one, and that is all that a view needs in order to show whole
  runs.  Since no values stay no values, a value is missing on one side when it is missing
  on the other.
-/
import DequeMachine.Proofs.Run.View

namespace DequeMachine

/-! ### The reverse -/

/-- The values in the opposite order, and the ends exchanged. -/
def View.reverse : View := .rearranged List.reverse true

theorem View.reverse_keeps (side : Side) : View.reverse.Keeps side := by
  intro d w
  apply Deque.ext
  cases side with
  | left =>
    have hseen : View.reverse.side .left = .right := rfl
    rw [toList_deque, hseen, Deque.toList_push_left, Deque.toList_push_right, toList_deque]
    exact List.reverse_cons
  | right =>
    have hseen : View.reverse.side .right = .left := rfl
    rw [toList_deque, hseen, Deque.toList_push_right, Deque.toList_push_left, toList_deque]
    exact List.reverse_concat

theorem View.deque_reverse (d : Deque) : View.reverse.deque d = d.reverse := by
  apply Deque.ext
  rw [toList_deque, Deque.toList_reverse]
  rfl

theorem View.machine_reverse (m : Machine) :
    View.reverse.machine m = { m with deque := m.deque.reverse } := by
  rw [View.reverse, machine_rearranged, ← deque_reverse]
  rfl

/-! ### Opposite programs -/

/-- The same about the other end. -/
def Decoded.opposite (d : Decoded) : Decoded := { d with side := d.side.opposite }

/-- The tokens of two tasks say the same about opposite ends, and whatever they say stands for
    the same label. -/
structure Task.Opposite (task task' : Task) (labels labels' : Labels) : Prop where
  decoded_eq : task'.decoded = task.decoded.map Decoded.opposite
  get?_eq : ∀ d ∈ task.decoded, labels'.get? d.operand = labels.get? d.operand

theorem Instruction.ofDecoded_opposite {labels labels' : Labels} {d : Decoded}
    (h : labels'.get? d.operand = labels.get? d.operand) :
    ofDecoded labels' d.opposite = View.reverse.instruction (ofDecoded labels d) := by
  have hnumber : numberOf? labels' d.operand = numberOf? labels d.operand := by
    simp only [numberOf?, h]
  simp only [ofDecoded, Decoded.opposite, hnumber]
  cases Mnemonic.ofName? d.operand with
  | some word => rfl
  | none =>
    by_cases hskip : (d.isLabel || d.operand.isEmpty) = true
    · simp only [if_pos hskip]
      rfl
    · simp only [if_neg hskip]
      cases numberOf? labels d.operand <;> rfl

namespace Task

variable {σ τ : Type} {task task' : Task} {labels labels' : Labels}

/-- **The meanings of opposite programs are opposite.** -/
theorem Opposite.meanings_eq (h : task.Opposite task' labels labels') :
    task'.meanings labels' = (task.meanings labels).map View.reverse.instruction := by
  rw [meanings_eq_map_decoded, meanings_eq_map_decoded, h.decoded_eq, List.map_map, List.map_map]
  apply List.map_congr_left
  intro d hd
  exact Instruction.ofDecoded_opposite (h.get?_eq d hd)

/-- **The two ends are alike.**  Of two opposite programs whose labels can be collected, with
    the same settings, one is run on a machine and the other on the machine with its deque
    reversed, with sinks that agree up to this.  After every turn the machines are the same
    up to their labels, with the deque of one the reverse of the other's.  The results are the
    same, with the values that are left reversed.  And the events are the same, with the
    values of each deque reversed and each with its own tokens. -/
theorem ends_alike (hlabels : Labels.ofProgram task.program = .ok labels)
    (hlabels' : Labels.ofProgram task'.program = .ok labels')
    (hopposite : task.Opposite task' labels labels')
    (htrace : task'.config.trace = task.config.trace)
    (hmaxSteps : task'.config.maxSteps = task.config.maxSteps)
    {R : σ → τ → Prop} {sink : Sink σ} {sink' : Sink τ}
    (hagree : sink.AgreeVia sink' task.program.tell
      (fun e => task'.program.tell (e.mapDeque List.reverse)) R)
    (m : Machine) {s : σ} {t : τ} (h : R s t) (n : Nat) :
    let reversed (m : Machine) : Machine := { m with deque := m.deque.reverse }
    (task'.run sink' (reversed m) t n).machine.relabel labels =
        reversed (task.run sink m s n).machine ∧
      (task'.execute? sink' n (reversed m) t).map
          (fun (result, m, _) => (result, m.relabel labels)) =
        (task.execute? sink n m s).map (fun (result, m, _) =>
          (result.map fun o => { o with values := o.values.reverse }, reversed m)) ∧
      ∃ told : List Event, task.events sink m s n = told.map task.program.tell ∧
        task'.events sink' (reversed m) t n =
          told.map fun e => task'.program.tell (e.mapDeque List.reverse) := by
  intro reversed
  have hreversed : reversed = View.reverse.machine := by
    funext m
    exact (View.machine_reverse m).symm
  have hresult : (fun result : Except Fault Outcome =>
      result.map fun o => { o with values := o.values.reverse }) = View.reverse.result := by
    funext result
    exact (View.result_rearranged List.reverse true result).symm
  have hscript : task'.script labels' = View.reverse.script (task.script labels) := by
    rw [View.reverse, View.script_rearranged, script, hopposite.meanings_eq, htrace, hmaxSteps]
    rfl
  have hkeeps : ∀ i ∈ task.meanings labels, ∀ side ∈ i.ends, View.reverse.Keeps side :=
    fun _ _ side _ => View.reverse_keeps side
  have hfed : View.reverse.values [] = [] ∨ ¬(task.run sink m s n).Starved := .inl rfl
  simp only [hreversed, congrFun hresult]
  exact ⟨machine_of_view hlabels hlabels' hscript hkeeps hagree m h n hfed,
    execute?_of_view hlabels hlabels' hscript hkeeps hagree m h n hfed,
    exists_told_of_view hlabels hlabels' hscript hkeeps hagree m h n hfed⟩

/-- A countdown at the right end and one at the left end, each under a rule of its own, are cut
    in the second round of their loops. -/
theorem ends_alike_countdown :
    let task : Task :=
      ⟨⟨#["move.", "3.", "trace.", "1.", "sub.", "dup.", "2.", "jmpif.", "exit."]⟩,
        { trace := true }⟩
    let task' : Task :=
      ⟨⟨#["!move", "!3", "!trace", "!1", "!sub", "!dup", "!2", "!jmpif", "!exit"]⟩,
        { rule := .labelOnly, trace := true }⟩
    let sink := Journal.sinkRefusing 10 "closed"
    let m : Machine := { Machine.fresh with deque := .ofList [.truth true, .truth false] }
    let reversed (m : Machine) : Machine := { m with deque := m.deque.reverse }
    task.Opposite task' .empty .empty ∧
      (task'.execute? sink 9 (reversed m) .empty).map
          (fun (result, m, _) => (result, m.relabel .empty)) =
        (task.execute? sink 9 m .empty).map (fun (result, m, _) =>
          (result.map fun o => { o with values := o.values.reverse }, reversed m)) ∧
      (task.execute? sink 9 m .empty).map (fun (_, m, _) => (m.index, m.deque.toList)) =
        some (2, [.truth false, .truth true, .number (.ofNat 2)]) := by
  intro task task' sink m reversed
  have hopposite : task.Opposite task' .empty .empty :=
    ⟨by decide +kernel, fun _ _ => rfl⟩
  obtain ⟨_, hresult, _⟩ := ends_alike rfl rfl hopposite rfl rfl
    (Journal.sinkRefusing_agreeVia 10 "closed" task.program.tell
      fun e => task'.program.tell (e.mapDeque List.reverse)) m rfl 9
  exact ⟨hopposite, hresult, by decide +kernel⟩

end Task

end DequeMachine

/-
  DequeMachine/Proofs/Run/Beneath.lean
  ====================================
  **A program for one end leaves alone what lies beneath.**

  Seen from an end, a deque is a stack, and other values may lie beneath those that a program
  works on.  A program whose tokens are all about that end, and of which none moves a value
  to the other end, neither reads nor disturbs them: it runs as it would without them, as
  long as it does not run out of values.

  This is the view that puts the other values beneath.  It keeps pushes at the one end and
  not at the other, so the instructions must touch the one end only (`ends_meanings`).  It
  also shows values where there are none, and so a run that fails for want of a value is
  the one thing that may look otherwise.
-/
import DequeMachine.Proofs.Run.View

namespace DequeMachine

/-! ### Other values beneath -/

/-- The values with others beneath them, as seen from an end. -/
def Side.beneath (rest : List Value) : Side → List Value → List Value
  | .left, values => values ++ rest
  | .right, values => rest ++ values

/-- The deque with other values beneath, as seen from an end. -/
def View.beneath (side : Side) (rest : List Value) : View := .rearranged (side.beneath rest) false

namespace View

variable (side : Side) (rest : List Value)

theorem beneath_keeps : (View.beneath side rest).Keeps side := by
  intro d w
  apply Deque.ext
  rw [side_of_unexchanged rfl]
  cases side with
  | left =>
    rw [toList_deque, Deque.toList_push_left, Deque.toList_push_left, toList_deque]
    exact List.cons_append
  | right =>
    rw [toList_deque, Deque.toList_push_right, Deque.toList_push_right, toList_deque]
    exact (List.append_assoc rest _ _).symm

theorem script_beneath (script : Script) : (View.beneath side rest).script script = script := by
  obtain ⟨instructions, trace, maxSteps⟩ := script
  rw [script_of_unexchanged rfl]
  cases maxSteps <;> rfl

end View

/-- A step shows its token whatever values are beneath. -/
theorem Program.tell_mapDeque (p : Program) (f : List Value → List Value) (e : Event) :
    p.tell (e.mapDeque f) = (p.tell e).mapDeque f := by
  cases e <;> rfl

/-! ### Programs for one end -/

/-- What is said about an end, and does not move a value, touches that end only. -/
theorem Instruction.eq_side_of_mem_ends {labels : Labels} {d : Decoded} {e : Side}
    (hmove : Mnemonic.ofName? d.operand ≠ some .move) (he : e ∈ (ofDecoded labels d).ends) :
    e = d.side := by
  unfold ofDecoded at he
  split at he
  · rename_i word hword
    cases word with
    | move => exact absurd hword hmove
    | _ => exact List.mem_singleton.mp he
  · split at he
    · cases he
    · split at he
      · exact List.mem_singleton.mp he
      · cases he

namespace Task

/-- Are all tokens about one end, and does none of them move a value to the other? -/
def StaysAt (task : Task) (side : Side) : Prop :=
  ∀ d ∈ task.decoded, d.side = side ∧ Mnemonic.ofName? d.operand ≠ some .move

variable {σ τ : Type} {task : Task} {side : Side}

theorem StaysAt.eq_of_mem_ends (h : task.StaysAt side) {labels : Labels} {i : Instruction}
    (hi : i ∈ task.meanings labels) {e : Side} (he : e ∈ i.ends) : e = side := by
  rw [meanings_eq_map_decoded] at hi
  obtain ⟨d, hd, rfl⟩ := List.mem_map.mp hi
  obtain ⟨hside, hmove⟩ := h d hd
  exact (Instruction.eq_side_of_mem_ends hmove he).trans hside

/-- **A program for one end leaves alone what lies beneath.**  If it does not run out of
    values, it runs on a deeper deque as it does without what is beneath, with sinks that
    agree up to this, as those do that accept everything.  After every turn the machine is the
    same, with the other values still beneath.  The result is the same, with the other values
    beneath those that are left.  And the events are the same, with the other values beneath
    in each deque. -/
theorem rest_left_alone (hstays : task.StaysAt side) (rest : List Value) {R : σ → τ → Prop}
    {sink : Sink σ} {sink' : Sink τ}
    (hagree : sink.AgreeVia sink' id (Event.mapDeque (side.beneath rest)) R)
    (m : Machine) {s : σ} {t : τ} (h : R s t) (n : Nat)
    (hfed : ∀ index m' s',
      task.execute? sink n m s ≠ some (.error (.emptyDeque index), m', s')) :
    let deeper (m : Machine) : Machine :=
      { m with deque := .ofList (side.beneath rest m.deque.toList) }
    (task.run sink' (deeper m) t n).machine = deeper (task.run sink m s n).machine ∧
      (task.execute? sink' n (deeper m) t).map (fun (result, m, _) => (result, m)) =
        (task.execute? sink n m s).map (fun (result, m, _) =>
          (result.map fun o => { o with values := side.beneath rest o.values }, deeper m)) ∧
      task.events sink' (deeper m) t n =
        (task.events sink m s n).map (Event.mapDeque (side.beneath rest)) := by
  intro deeper
  cases hlabels : Labels.ofProgram task.program with
  | error fault =>
    -- neither run gets to a first turn
    refine ⟨?_, ?_, ?_⟩
    · rw [task.run_of_labels_error sink m s hlabels, task.run_of_labels_error sink' _ t hlabels,
        Run.machine_ended, Run.machine_ended]
    · rw [task.execute?_of_labels_error sink m s hlabels,
        task.execute?_of_labels_error sink' _ t hlabels]
      rfl
    · rw [task.events_of_labels_error sink m s hlabels,
        task.events_of_labels_error sink' _ t hlabels, List.map_nil]
  | ok labels =>
    have hscript : task.script labels =
        (View.beneath side rest).script (task.script labels) :=
      (View.script_beneath side rest _).symm
    have hkeeps : ∀ i ∈ task.meanings labels, ∀ e ∈ i.ends, (View.beneath side rest).Keeps e := by
      intro i hi e he
      rw [hstays.eq_of_mem_ends hi he]
      exact View.beneath_keeps side rest
    have hlook : (fun e => task.program.tell (e.mapDeque (side.beneath rest))) =
        Event.mapDeque (side.beneath rest) ∘ task.program.tell := by
      funext e
      exact task.program.tell_mapDeque _ e
    have htold : sink.AgreeVia sink' task.program.tell
        (fun e => task.program.tell (e.mapDeque (side.beneath rest))) R := by
      rw [hlook]
      intro s t e hst
      exact hagree s t (task.program.tell e) hst
    have hfed' : (View.beneath side rest).values [] = [] ∨ ¬(task.run sink m s n).Starved := by
      refine .inr ?_
      rintro ⟨index, m', s', hend⟩
      exact hfed index m' s' ((task.execute?_eq_some_iff sink m s).mpr hend)
    refine ⟨?_, ?_, ?_⟩
    · have hmachine := machine_of_view hlabels hlabels hscript hkeeps htold m h n hfed'
      rw [← Run.machine_relabel, task.run_relabel_self hlabels] at hmachine
      exact hmachine
    · have hresult := execute?_of_view hlabels hlabels hscript hkeeps htold m h n hfed'
      rw [task.execute?_relabel_self hlabels] at hresult
      simp only [View.beneath, View.result_rearranged, View.machine_rearranged] at hresult
      exact hresult
    · obtain ⟨told, hevents, hevents'⟩ :=
        exists_told_of_view hlabels hlabels hscript hkeeps htold m h n hfed'
      rw [hevents, List.map_map, ← hlook]
      exact hevents'

/-- A loop at the right end that comes to a token without a meaning does so with another value
    beneath as well. -/
theorem rest_left_alone_loop :
    let task : Task :=
      ⟨⟨#["2.", "loop:", "trace.", "1.", "sub.", "dup.", "loop.", "jmpif.", "oops."]⟩,
        { trace := true }⟩
    let rest : List Value := [.truth true]
    let deeper (m : Machine) : Machine :=
      { m with deque := .ofList (Side.right.beneath rest m.deque.toList) }
    task.StaysAt .right ∧
      (∀ index m j, task.execute? Journal.sink 16 .fresh .empty ≠
        some (.error (.emptyDeque index), m, j)) ∧
      (task.execute? Journal.sink 16 (deeper .fresh) .empty).map
          (fun (result, m, _) => (result, m)) =
        (task.execute? Journal.sink 16 .fresh .empty).map (fun (result, m, _) =>
          (result.map fun o => { o with values := Side.right.beneath rest o.values }, deeper m)) ∧
      (task.execute? Journal.sink 16 (deeper .fresh) .empty).map
          (fun (_, m, _) => (m.index, m.deque.toList)) =
        some (8, [.truth true, .number .zero]) := by
  intro task rest deeper
  have hstays : task.StaysAt .right := by
    unfold StaysAt
    decide +kernel
  have hfault : (task.execute? Journal.sink 16 .fresh .empty).map (fun (result, _) =>
      match result with
      | .error (.unknownToken index operand) => some (index, operand)
      | _ => none) = some (some (8, "oops")) := by
    decide +kernel
  have hfed : ∀ index m j, task.execute? Journal.sink 16 .fresh .empty ≠
      some (.error (.emptyDeque index), m, j) := by
    intro index m j hempty
    rw [hempty] at hfault
    cases hfault
  have haccepts : Journal.sink.Accepts (fun _ => True) := fun _ _ _ => ⟨_, rfl, trivial⟩
  have hagree := haccepts.agreeVia haccepts id (Event.mapDeque (Side.right.beneath rest))
  obtain ⟨_, hresult, _⟩ :=
    rest_left_alone hstays rest hagree .fresh ⟨trivial, trivial⟩ 16 hfed
  exact ⟨hstays, hfed, hresult, by decide +kernel⟩

end Task

end DequeMachine

/-
  DequeMachine/Proofs/Run/Undo.lean
  =================================
  **Instructions that undo each other, and a deque that turns.**

  Some instructions change the deque and go on, and do nothing else.  A row of them leads from
  one deque to another (`Instruction.Leads`), and where it leads to does not depend on the
  machine.  So the law that two instructions undo each other is one about deques
  (`Undoes.leads`): the row of both leads back.  The same holds of values that are moved from
  an end to the other, one after another: the deque turns, and seen from the end that they
  leave this is the rotation of a list (`exists_leads_moves`).

  A run that comes to such a row of instructions carries them out in as many turns
  (`after_of_leads`), and nothing is offered to the sink.
-/
import DequeMachine.Proofs.Run.Basic
import Mathlib.Data.List.Rotate

namespace DequeMachine

variable {σ : Type}

/-! ### Deques that turn -/

namespace Deque

/-- The values as they are met from an end. -/
def seenFrom (d : Deque) (side : Side) : List Value :=
  match side with
  | .left => d.toList
  | .right => d.toList.reverse

/-- The deque after as many values as there are places were taken from an end to the other, in
    their order. -/
def turned (d : Deque) (side : Side) (places : Nat) : Deque :=
  match side with
  | .left => .ofList (d.toList.drop places ++ d.toList.take places)
  | .right => .ofList (d.toList.drop (d.size - places) ++ d.toList.take (d.size - places))

variable {d e : Deque} {side : Side}

theorem eq_of_seenFrom (h : d.seenFrom side = e.seenFrom side) : d = e := by
  apply ext
  cases side with
  | left => exact h
  | right => exact List.reverse_injective h

@[simp] theorem length_seenFrom (d : Deque) (side : Side) : (d.seenFrom side).length = d.size := by
  cases side <;> simp [seenFrom, size]

@[simp] theorem seenFrom_push (d : Deque) (side : Side) (v : Value) :
    (d.push side v).seenFrom side = v :: d.seenFrom side := by
  cases side <;> simp [seenFrom]

@[simp] theorem seenFrom_push_opposite (d : Deque) (side : Side) (v : Value) :
    (d.push side.opposite v).seenFrom side = d.seenFrom side ++ [v] := by
  cases side <;> simp [seenFrom, Side.opposite]

/-- From the end that the values leave, a turn is a rotation. -/
theorem seenFrom_turned {places : Nat} (h : places ≤ d.size) (side : Side) :
    (d.turned side places).seenFrom side = (d.seenFrom side).rotate places := by
  rw [List.rotate_eq_drop_append_take (by simpa using h)]
  cases side with
  | left => simp [turned, seenFrom]
  | right => simp [turned, seenFrom, List.drop_reverse, List.take_reverse, size]

theorem turned_size (d : Deque) (side : Side) : d.turned side (d.size % d.size) = d := by
  apply ext
  cases side <;> simp [turned, size]

end Deque

/-! ### Rows of instructions -/

namespace Instruction

/-- Instructions that go on lead from one deque to another. -/
inductive Leads : Deque → List Instruction → Deque → Prop where
  | nil (d : Deque) : Leads d [] d
  | cons {d between last : Deque} {i : Instruction} {rest : List Instruction}
      (hfirst : i.ComesTo d (.go between)) (hrest : Leads between rest last) :
      Leads d (i :: rest) last

/-- The second instruction undoes the first on any deque of so many values. -/
inductive Undoes (side : Side) : Nat → Instruction → Instruction → Prop where
  | push (x : Number) : Undoes side 0 (.push side x) (.perform .drop side)
  | dup : Undoes side 1 (.perform .dup side) (.perform .drop side)
  | over : Undoes side 2 (.perform .over side) (.perform .drop side)
  | swap : Undoes side 2 (.perform .swap side) (.perform .swap side)
  | move : Undoes side 1 (.perform .move side) (.perform .move side.opposite)

/-- **What was undone was not done.** -/
theorem Undoes.leads {side : Side} {least : Nat} {i j : Instruction} (h : Undoes side least i j)
    {d : Deque} (hleast : least ≤ d.size) : Leads d [i, j] d := by
  cases h with
  | push x => exact .cons (comesTo_push d side x) (.cons comesTo_drop (.nil _))
  | dup =>
    obtain ⟨v, rest, rfl⟩ := Deque.exists_eq_push hleast side
    exact .cons comesTo_dup (.cons comesTo_drop (.nil _))
  | «over» =>
    obtain ⟨v, w, rest, rfl⟩ := Deque.exists_eq_push_push hleast side
    exact .cons comesTo_over (.cons comesTo_drop (.nil _))
  | swap =>
    obtain ⟨v, w, rest, rfl⟩ := Deque.exists_eq_push_push hleast side
    exact .cons comesTo_swap (.cons comesTo_swap (.nil _))
  | move =>
    obtain ⟨v, rest, rfl⟩ := Deque.exists_eq_push hleast side
    have hback : (perform .move side.opposite).ComesTo (rest.push side.opposite v)
        (.go (rest.push side.opposite.opposite v)) := comesTo_move
    rw [Side.opposite_opposite] at hback
    exact .cons comesTo_move (.cons hback (.nil _))

/-- One value after another goes to the other end. -/
theorem exists_leads_moves {d : Deque} (hsome : 0 < d.size) (side : Side) (k : Nat) :
    ∃ last : Deque, Leads d (List.replicate k (.perform .move side)) last ∧
      last.seenFrom side = (d.seenFrom side).rotate k := by
  induction k generalizing d with
  | zero => exact ⟨d, .nil d, by simp⟩
  | succ k ih =>
    obtain ⟨v, rest, rfl⟩ := Deque.exists_eq_push hsome side
    obtain ⟨last, hleads, hlast⟩ := ih (d := rest.push side.opposite v) (by simp)
    refine ⟨last, .cons comesTo_move hleads, ?_⟩
    simp [hlast, List.rotate_cons_succ]

/-- **Moving turns the deque,** and a full turn is none. -/
theorem leads_moves {d : Deque} (hsome : 0 < d.size) (side : Side) (k : Nat) :
    Leads d (List.replicate k (.perform .move side)) (d.turned side (k % d.size)) := by
  obtain ⟨last, hleads, hlast⟩ := exists_leads_moves hsome side k
  have hturned : d.turned side (k % d.size) = last := by
    refine Deque.eq_of_seenFrom (?_ : _ = last.seenFrom side)
    rw [Deque.seenFrom_turned (Nat.le_of_lt (Nat.mod_lt k hsome)), hlast,
      ← d.length_seenFrom side, List.rotate_mod]
  rwa [hturned]

end Instruction

open Instruction (Leads Undoes)

theorem Machine.execAll_of_leads {m : Machine} {is : List Instruction} {d : Deque}
    (h : Leads m.deque is d) (size : Nat) :
    m.execAll size is = .next { m with deque := d, index := m.index + is.length } := by
  generalize hdeque : m.deque = first at h
  induction h generalizing m with
  | nil d =>
    subst hdeque
    rfl
  | cons hfirst hrest ih =>
    rw [execAll, hfirst size m hdeque]
    refine (ih rfl).trans ?_
    simp [Nat.add_assoc, Nat.add_comm 1]

/-! ### Rows of tokens -/

namespace Task

/-- The tokens from the index of a machine on have these meanings. -/
def Ahead (task : Task) (m : Machine) (is : List Instruction) : Prop :=
  ∀ k i, is[k]? = some i →
    ∃ token, task.program.get? (m.index + k) = some token ∧ task.instruction m token = i

/-- A machine may begin so many more instructions. -/
def HasRoom (task : Task) (m : Machine) (turns : Nat) : Prop :=
  ∀ limit, task.config.maxSteps = some limit → m.steps + turns ≤ limit

section Rows

variable {task : Task} {m : Machine}

theorem Ahead.take {is : List Instruction} (h : task.Ahead m is) (n : Nat) :
    task.Ahead m (is.take n) := by
  intro k i hi
  rw [List.getElem?_take] at hi
  split at hi
  · exact h k i hi
  · cases hi

theorem HasRoom.mono {n k : Nat} (h : task.HasRoom m k) (hle : n ≤ k) : task.HasRoom m n := by
  intro limit hlimit
  exact Nat.le_trans (Nat.add_le_add_left hle _) (h limit hlimit)

theorem HasRoom.limitReached?_eq_none {turns : Nat} (h : task.HasRoom m turns)
    (hpos : 0 < turns) : task.limitReached? m = none := by
  simp only [limitReached?, Option.filter_eq_none_iff, decide_eq_true_eq, Nat.not_le]
  intro limit hlimit
  have hroom := h limit hlimit
  omega

/-- **A run carries out the tokens ahead of it,** one in each turn, and shows nothing. -/
theorem after_of_leads (hplain : task.config.trace = false) (sink : Sink σ)
    {is : List Instruction} {d : Deque} (h : Leads m.deque is d) (hahead : task.Ahead m is)
    (hroom : task.HasRoom m is.length) (s : σ) :
    task.after sink is.length (.going m s) =
      .going { m with
        deque := d, index := m.index + is.length, steps := m.steps + is.length } s := by
  generalize hdeque : m.deque = first at h
  induction h generalizing m with
  | nil d =>
    subst hdeque
    rfl
  | @cons d between last i rest hfirst hrest ih =>
    obtain ⟨token, htoken, rfl⟩ := hahead 0 i rfl
    have hturn : task.next sink (.going m s) =
        .going { m with deque := between, index := m.index + 1, steps := m.steps + 1 } s := by
      rw [next_going sink s htoken (hroom.limitReached?_eq_none (Nat.succ_pos _)),
        begin_of_accepted sink (announce_of_untraced sink hplain _ _ s), carryOut]
      have hexec := hfirst task.program.size { m with steps := m.steps + 1 } hdeque
      exact congrArg (settle sink · s) hexec
    -- the rest of the row is ahead of the machine that the first turn leaves
    let m' : Machine := { m with deque := between, index := m.index + 1, steps := m.steps + 1 }
    have hahead' : task.Ahead m' rest := by
      intro k j hj
      obtain ⟨token', htoken', hmeaning⟩ := hahead (k + 1) j hj
      refine ⟨token', ?_, hmeaning⟩
      rwa [Nat.add_assoc, Nat.add_comm 1]
    have hroom' : task.HasRoom m' rest.length := by
      intro limit hlimit
      have hle := hroom limit hlimit
      rw [List.length_cons] at hle
      simp only [m']
      omega
    rw [List.length_cons, after, hturn, ih hahead' hroom' rfl]
    simp [m', Nat.add_assoc, Nat.add_comm 1]

end Rows

/-- **Instructions that undo each other leave a run as it was,** but for the index and the steps.
    A number that is put on the deque is dropped again, as is a copy of the first or the second
    value; what was swapped is swapped back, and what was moved is moved back.  Values that are
    moved from an end, as many as one likes, turn the deque by that number up to full turns, and
    a full turn leaves it as it is.  Each of these instructions takes one turn of the run, goes
    on to the next token and shows nothing. -/
theorem undone_or_turned (task : Task) (hplain : task.config.trace = false) (sink : Sink σ)
    (m : Machine) (s : σ) (side : Side) :
    (∀ (least : Nat) (i j : Instruction), Undoes side least i j → least ≤ m.deque.size →
      (∀ size, m.execAll size [i, j] = .next { m with index := m.index + 2 }) ∧
      (task.Ahead m [i, j] → task.HasRoom m 2 →
        (∃ between, task.after sink 1 (.going m s) =
          .going { m with deque := between, index := m.index + 1, steps := m.steps + 1 } s) ∧
        task.after sink 2 (.going m s) =
          .going { m with index := m.index + 2, steps := m.steps + 2 } s)) ∧
    (0 < m.deque.size → ∀ k,
      (∀ size, m.execAll size (List.replicate k (.perform .move side)) =
        .next { m with
          deque := m.deque.turned side (k % m.deque.size), index := m.index + k }) ∧
      (task.Ahead m (List.replicate k (.perform .move side)) → task.HasRoom m k →
        task.after sink k (.going m s) =
          .going { m with
            deque := m.deque.turned side (k % m.deque.size)
            index := m.index + k
            steps := m.steps + k } s)) ∧
    m.deque.turned side (m.deque.size % m.deque.size) = m.deque := by
  refine ⟨?undo, ?turn, m.deque.turned_size side⟩
  case undo =>
    intro least i j hundoes hleast
    have hleads := hundoes.leads hleast
    refine ⟨Machine.execAll_of_leads hleads, ?_⟩
    intro hahead hroom
    refine ⟨?_, after_of_leads hplain sink hleads hahead hroom s⟩
    cases hleads with
    | @cons _ between _ _ _ hfirst hrest =>
      exact ⟨between, after_of_leads hplain sink (.cons hfirst (.nil _)) (hahead.take 1)
        (hroom.mono (Nat.le_succ 1)) s⟩
  case turn =>
    intro hsome k
    have hleads := Instruction.leads_moves hsome side k
    have hexec := Machine.execAll_of_leads hleads
    have hafter := fun hahead hroom => after_of_leads hplain sink hleads hahead hroom s
    rw [List.length_replicate] at hexec hafter
    exact ⟨hexec, hafter⟩

/-- Of two values, the one on the right is copied over the other and dropped again, and three
    moves exchange the two, all within the limit. -/
theorem undone_or_turned_two :
    let task : Task := ⟨⟨#["!over", "!drop", "move.", "move.", "move."]⟩, { maxSteps := some 5 }⟩
    let m : Machine := { Machine.fresh with deque := .ofList [.truth true, .number .zero] }
    let m' : Machine := { m with index := 2, steps := 2 }
    task.after Journal.sink 2 (.going m .empty) = .going m' .empty ∧
      task.after Journal.sink 3 (.going m' .empty) =
        .going { m with
          deque := .ofList [.number .zero, .truth true], index := 5, steps := 5 } .empty := by
  intro task m m'
  have hover : task.Ahead m [.perform .over .left, .perform .drop .left]
    | 0, _, rfl => ⟨"!over", rfl, by decide +kernel⟩
    | 1, _, rfl => ⟨"!drop", rfl, by decide +kernel⟩
  have hmoves : task.Ahead m' (List.replicate 3 (.perform .move .right))
    | 0, _, rfl | 1, _, rfl | 2, _, rfl => ⟨"move.", rfl, by decide +kernel⟩
  have hroom : task.HasRoom m 2 := by
    rintro limit ⟨⟩
    decide
  have hroom' : task.HasRoom m' 3 := by
    rintro limit ⟨⟩
    decide
  obtain ⟨hundo, _⟩ := undone_or_turned task rfl Journal.sink m .empty .left
  obtain ⟨_, hturn, _⟩ := undone_or_turned task rfl Journal.sink m' .empty .right
  have hturned : m'.deque.turned .right (3 % m'.deque.size) =
      .ofList [.number .zero, .truth true] := by decide
  refine ⟨((hundo 2 _ _ .over (by decide)).2 hover hroom).2, ?_⟩
  rw [((hturn (by decide) 3).2 hmoves hroom'), hturned]

end Task

end DequeMachine

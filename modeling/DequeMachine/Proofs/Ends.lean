/-
  DequeMachine/Proofs/Ends.lean
  =============================
  **What happens at one end of a deque does not matter at the other.**

  Values are pushed and popped at both ends, in any order (`Deque.play`).  What is done at an
  end needs some values there before it can go on with values of its own; how many, is its
  *depth*.  A deque that is deep enough for both ends can be cut into a part for each of them
  (`Deque.whole`), so that nothing done at an end ever gets to the part of the other one.

  This is kept by every push and every pop (`whole_push`).  So each part goes its own way
  (`play_whole`), and in which order the two ends take turns makes no difference.
-/
import DequeMachine.Proofs.Machine
import Mathlib.Data.List.Infix

namespace DequeMachine

/-! ### Actions at an end -/

/-- Something that is done at an end of a deque. -/
inductive Action where
  | push (v : Value)
  | pop
deriving DecidableEq, Repr

namespace Action

def isPop : Action → Bool
  | .push _ => false
  | .pop => true

/-- By how many the pops exceed the pushes, or zero if they do not. -/
def excess (actions : List Action) : Nat :=
  actions.countP isPop - actions.countP (!·.isPop)

/-- How many values actions at an end have to find there: the largest excess of any of their
    beginnings. -/
def depth (actions : List Action) : Nat :=
  (actions.inits.map excess).max (by simp [← List.length_eq_zero_iff])

theorem depth_le_iff {actions : List Action} {n : Nat} :
    depth actions ≤ n ↔
      ∀ front, front <+: actions → front.countP isPop ≤ n + front.countP (!·.isPop) := by
  simp [depth, excess, List.max_le_iff]

theorem depth_cons_le_iff {first : Action} {rest : List Action} {n : Nat} :
    depth (first :: rest) ≤ n ↔ ∀ front, front <+: rest →
      (first :: front).countP isPop ≤ n + (first :: front).countP (!·.isPop) := by
  simp only [depth_le_iff, List.prefix_cons_iff]
  constructor
  · intro h front hprefix
    exact h _ (.inr ⟨front, rfl, hprefix⟩)
  · rintro h _ (rfl | ⟨front, rfl, hprefix⟩)
    · exact Nat.zero_le _
    · exact h front hprefix

/-- A value that is pushed is there for a later pop. -/
theorem depth_push (v : Value) (rest : List Action) :
    depth (.push v :: rest) = depth rest - 1 := by
  apply eq_of_forall_ge_iff
  intro n
  rw [Nat.sub_le_iff_le_add, depth_cons_le_iff, depth_le_iff]
  refine forall₂_congr fun front _ => ?_
  simp [isPop]
  omega

/-- A pop takes a value that no later one finds. -/
theorem depth_pop (rest : List Action) : depth (.pop :: rest) = depth rest + 1 := by
  apply eq_of_forall_ge_iff
  intro n
  cases n with
  | zero =>
    -- the pop by itself finds nothing in a deque without values
    refine iff_of_false (fun h => ?_) (Nat.not_succ_le_zero _)
    exact absurd (depth_cons_le_iff.mp h [] List.nil_prefix) (by decide)
  | succ n =>
    rw [Nat.succ_le_succ_iff, depth_cons_le_iff, depth_le_iff]
    refine forall₂_congr fun front _ => ?_
    simp [List.countP_cons, isPop]
    omega

end Action

/-! ### Both ends in turn -/

/-- What concerns one side, in its order. -/
def Side.entries {α : Type} (side : Side) (both : List (Side × α)) : List α :=
  (both.filter (·.1 = side)).map Prod.snd

namespace Side

variable {α : Type} {side other : Side}

@[simp] theorem entries_nil : side.entries ([] : List (Side × α)) = [] := rfl

@[simp] theorem entries_cons_self (x : α) (rest : List (Side × α)) :
    side.entries ((side, x) :: rest) = x :: side.entries rest := by
  simp [entries]

theorem entries_cons_of_ne (h : other ≠ side) (x : α) (rest : List (Side × α)) :
    side.entries ((other, x) :: rest) = side.entries rest := by
  simp [entries, h]

@[simp] theorem entries_append (front rest : List (Side × α)) :
    side.entries (front ++ rest) = side.entries front ++ side.entries rest := by
  simp [entries]

theorem entries_cons (x : Side × α) (rest : List (Side × α)) :
    side.entries (x :: rest) = side.entries [x] ++ side.entries rest :=
  entries_append [x] rest

@[simp] theorem entries_map_self (xs : List α) : side.entries (xs.map (side, ·)) = xs := by
  simp [entries, List.filter_map, Function.comp_def]

theorem entries_map_of_ne (h : other ≠ side) (xs : List α) :
    side.entries (xs.map (other, ·)) = [] := by
  simp [entries, h]

end Side

namespace Deque

/-- One action after another: what every pop has found, if there was anything, and the deque
    that is left.  A pop that finds nothing changes nothing. -/
def play (d : Deque) : List (Side × Action) → List (Side × Option Value) × Deque
  | [] => ([], d)
  | (side, .push v) :: rest => (d.push side v).play rest
  | (side, .pop) :: rest =>
    match d.pop? side with
    | some (v, left) => ((side, some v) :: (left.play rest).1, (left.play rest).2)
    | none => ((side, none) :: (d.play rest).1, (d.play rest).2)

@[simp] theorem play_nil (d : Deque) : d.play [] = ([], d) := rfl

@[simp] theorem play_push (d : Deque) (side : Side) (v : Value) (rest : List (Side × Action)) :
    d.play ((side, .push v) :: rest) = (d.push side v).play rest := rfl

@[simp] theorem push_play_pop (d : Deque) (side : Side) (v : Value) (rest : List (Side × Action)) :
    (d.push side v).play ((side, .pop) :: rest) =
      ((side, some v) :: (d.play rest).1, (d.play rest).2) := by
  simp [play]

/-! ### A part for each end -/

/-- The deque that consists of a part for each end. -/
def whole (parts : Side → Deque) : Deque :=
  .ofList ((parts .left).toList ++ (parts .right).toList)

/-- The values on both sides of a place, as a part for each end. -/
def partsAt (d : Deque) (place : Nat) : Side → Deque
  | .left => .ofList (d.toList.take place)
  | .right => .ofList (d.toList.drop place)

@[simp] theorem whole_partsAt (d : Deque) (place : Nat) : whole (d.partsAt place) = d :=
  ext (by simp [whole, partsAt])

/-- **A push goes to the part of its end.** -/
theorem whole_push (parts : Side → Deque) (side : Side) (v : Value) :
    (whole parts).push side v =
      whole (Function.update parts side ((parts side).push side v)) := by
  apply ext
  cases side <;> simp [whole]

/-- The actions at one side, carried out on the part of that side alone. -/
def playPart (parts : Side → Deque) (actions : List (Side × Action)) (side : Side) :
    List (Side × Option Value) × Deque :=
  (parts side).play ((side.entries actions).map (side, ·))

/-- Does each part have as many values as what is done at its end has to find? -/
def DeepEnough (parts : Side → Deque) (actions : List (Side × Action)) : Prop :=
  ∀ side : Side, Action.depth (side.entries actions) ≤ (parts side).size

section Parts

variable {parts : Side → Deque} {side : Side} {v : Value} {rest : List (Side × Action)}

theorem playPart_push :
    playPart parts ((side, .push v) :: rest) =
      playPart (Function.update parts side ((parts side).push side v)) rest := by
  funext other
  by_cases h : other = side
  · subst h
    simp [playPart]
  · simp [playPart, Side.entries_cons_of_ne (Ne.symm h), Function.update_of_ne h]

theorem entries_playPart_pop (other : Side) :
    other.entries (playPart (Function.update parts side ((parts side).push side v))
        ((side, .pop) :: rest) other).1 =
      other.entries ((side, some v) :: (playPart parts rest other).1) := by
  by_cases h : other = side
  · subst h
    simp [playPart]
  · simp [playPart, Side.entries_cons_of_ne (Ne.symm h), Function.update_of_ne h]

theorem playPart_pop_left (other : Side) :
    (playPart (Function.update parts side ((parts side).push side v))
        ((side, .pop) :: rest) other).2 = (playPart parts rest other).2 := by
  by_cases h : other = side
  · subst h
    simp [playPart]
  · simp [playPart, Side.entries_cons_of_ne (Ne.symm h), Function.update_of_ne h]

theorem DeepEnough.of_push (hdeep : DeepEnough parts ((side, .push v) :: rest)) :
    DeepEnough (Function.update parts side ((parts side).push side v)) rest := by
  intro other
  have hneed := hdeep other
  by_cases h : other = side
  · subst h
    rw [Side.entries_cons_self, Action.depth_push] at hneed
    rw [Function.update_self, size_push]
    omega
  · rw [Side.entries_cons_of_ne (Ne.symm h)] at hneed
    rwa [Function.update_of_ne h]

/-- What a pop finds in a part that is deep enough was pushed on a part that is deep enough for
    the rest. -/
theorem DeepEnough.of_pop (hdeep : DeepEnough parts ((side, .pop) :: rest)) :
    ∃ lower v, parts = Function.update lower side ((lower side).push side v) ∧
      DeepEnough lower rest := by
  have hfull : 0 < (parts side).size := by
    have hneed := hdeep side
    rw [Side.entries_cons_self, Action.depth_pop] at hneed
    omega
  obtain ⟨v, left, hpart⟩ := exists_eq_push hfull side
  refine ⟨Function.update parts side left, v, ?_, ?_⟩
  · simp [hpart.symm]
  · intro other
    have hneed := hdeep other
    by_cases h : other = side
    · subst h
      rw [Side.entries_cons_self, Action.depth_pop, hpart, size_push] at hneed
      rw [Function.update_self]
      omega
    · rw [Side.entries_cons_of_ne (Ne.symm h)] at hneed
      rwa [Function.update_of_ne h]

end Parts

/-- **Each part goes its own way.**  Every pop finds a value, which is the one that it finds in
    the part of its end alone, and what is left consists of what is left of the parts. -/
theorem play_whole {actions : List (Side × Action)} {parts : Side → Deque}
    (hdeep : DeepEnough parts actions) :
    (∀ found ∈ ((whole parts).play actions).1, found.2.isSome) ∧
    (∀ side : Side, side.entries ((whole parts).play actions).1 =
      side.entries (playPart parts actions side).1) ∧
    ((whole parts).play actions).2 = whole fun side => (playPart parts actions side).2 := by
  induction actions generalizing parts with
  | nil => simp [playPart]
  | cons first rest ih =>
    obtain ⟨side, action⟩ := first
    cases action with
    | push v =>
      rw [play_push, whole_push, playPart_push]
      exact ih hdeep.of_push
    | pop =>
      -- the pop takes what a push on other parts has put there, and these go on
      obtain ⟨lower, v, rfl, hrest⟩ := hdeep.of_pop
      obtain ⟨hfound, hentries, hleft⟩ := ih hrest
      rw [← whole_push, push_play_pop]
      refine ⟨by simpa using hfound, ?_, ?_⟩
      · intro other
        have hsame := hentries other
        rw [entries_playPart_pop, Side.entries_cons, hsame, ← Side.entries_cons]
      · simp only [hleft, playPart_pop_left]

/-- A deque that is deep enough for both ends can be cut between them. -/
theorem exists_whole_eq {d : Deque} {actions : List (Side × Action)}
    (h : Action.depth (Side.left.entries actions) + Action.depth (Side.right.entries actions) ≤
      d.size) :
    ∃ parts, whole parts = d ∧ DeepEnough parts actions := by
  refine ⟨d.partsAt (Action.depth (Side.left.entries actions)), whole_partsAt d _, ?_⟩
  unfold size at h
  intro side
  cases side with
  | left =>
    simp only [partsAt, size, toList_ofList, List.length_take]
    omega
  | right =>
    simp only [partsAt, size, toList_ofList, List.length_drop]
    omega

/-- **The two ends do not depend on each other.**  If a deque is deep enough for what is done
    at the left end and what is done at the right end together, then it does not matter how the
    two take turns: no pop finds the deque empty, the pops at each end find the same values in the
    same order, and the same values are left, as if everything at the left end was done first. -/
theorem ends_apart (d : Deque) (left right : List Action)
    (hdeep : Action.depth left + Action.depth right ≤ d.size) (actions : List (Side × Action))
    (hleft : Side.left.entries actions = left) (hright : Side.right.entries actions = right) :
    let inTurn := left.map (Side.left, ·) ++ right.map (Side.right, ·)
    (∀ found ∈ (d.play actions).1, found.2.isSome) ∧
    (∀ side : Side, side.entries (d.play actions).1 = side.entries (d.play inTurn).1) ∧
    (d.play actions).2 = (d.play inTurn).2 := by
  intro inTurn
  have hsame : ∀ side : Side, side.entries inTurn = side.entries actions := by
    intro side
    cases side <;> simp [inTurn, hleft, hright, Side.entries_map_of_ne]
  rw [← hleft, ← hright] at hdeep
  obtain ⟨parts, rfl, hparts⟩ := exists_whole_eq hdeep
  have hparts' : DeepEnough parts inTurn := fun side => hsame side ▸ hparts side
  have hown : playPart parts inTurn = playPart parts actions := by
    funext side
    simp only [playPart, hsame]
  obtain ⟨hfound, hentries, hlast⟩ := play_whole hparts
  obtain ⟨_, hentries', hlast'⟩ := play_whole hparts'
  refine ⟨hfound, ?_, ?_⟩
  · intro side
    rw [hentries, hentries', hown]
  · rw [hlast, hlast', hown]

/-- One value, and another one pushed at each end, are enough for three pops. -/
theorem ends_apart_shallow :
    let d : Deque := .ofList [.truth true]
    let left : List Action := [.pop, .push (.truth false), .pop]
    let right : List Action := [.push (.number .zero), .pop]
    let actions : List (Side × Action) :=
      [(.right, .push (.number .zero)), (.left, .pop), (.left, .push (.truth false)),
        (.right, .pop), (.left, .pop)]
    Action.depth left + Action.depth right ≤ d.size ∧
      Side.left.entries (d.play actions).1 = [some (.truth true), some (.truth false)] ∧
      (d.play actions).2 = .empty := by
  intro d left right actions
  have hdeep : Action.depth left + Action.depth right ≤ d.size := by decide
  obtain ⟨_, hentries, hlast⟩ := ends_apart d left right hdeep actions rfl rfl
  refine ⟨hdeep, ?_, ?_⟩
  · rw [hentries]
    decide
  · rw [hlast]
    decide

end Deque

end DequeMachine

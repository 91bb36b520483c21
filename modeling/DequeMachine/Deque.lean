/-
  DequeMachine/Deque.lean
  =======================
  **The deque: a row of values that changes at its ends only.**

  The row is kept as two stacks, one growing from each end, so that pushing and
  popping at either end takes the same time however long the row is.  A stack
  that has run empty gets the nearer half of the other one.

  Where the row is divided between the stacks is nobody's business: a `Deque` is a
  pair of stacks up to the row that it stands for.  Everything outside of this
  file sees a deque as the list of its values from left to right, `toList`.  A
  deque is the same thing as that list (`ofList_toList`, `toList_ofList`), and
  the laws below say what the operations do to it.
-/
import DequeMachine.Token
import DequeMachine.Value

namespace DequeMachine

/-! ### Two stacks -/

/-- A row of values in two parts, each with the value at its end of the row on
    top. -/
structure TwoStacks where
  left : List Value
  right : List Value

namespace TwoStacks

/-- The values from left to right. -/
def toList (s : TwoStacks) : List Value := s.left ++ s.right.reverse

/-- The row seen from the other end. -/
def flip (s : TwoStacks) : TwoStacks := ⟨s.right, s.left⟩

def pushLeft (s : TwoStacks) (v : Value) : TwoStacks := ⟨v :: s.left, s.right⟩

/-- The value on the left.  If the left stack is empty, the half of the right one
    that is nearer to the left end takes its place. -/
def popLeft? (s : TwoStacks) : Option (Value × TwoStacks) :=
  match s.left with
  | v :: rest => some (v, ⟨rest, s.right⟩)
  | [] =>
    let kept := s.right.length / 2
    match (s.right.drop kept).reverse with
    | v :: rest => some (v, ⟨rest, s.right.take kept⟩)
    | [] => none

theorem toList_flip (s : TwoStacks) : s.flip.toList = s.toList.reverse := by
  simp [flip, toList]

theorem toList_pushLeft (s : TwoStacks) (v : Value) : (s.pushLeft v).toList = v :: s.toList := rfl

theorem map_toList_popLeft? (s : TwoStacks) :
    s.popLeft?.map (fun p => (p.1, p.2.toList)) =
      s.toList.head?.map (·, s.toList.tail) := by
  obtain ⟨left, right⟩ := s
  cases left with
  | cons v rest => rfl
  | nil =>
    have whole : right.reverse =
        (right.drop (right.length / 2)).reverse ++ (right.take (right.length / 2)).reverse := by
      rw [← List.reverse_append, List.take_append_drop]
    cases h : (right.drop (right.length / 2)).reverse with
    | cons v rest =>
      rw [h] at whole
      simp [popLeft?, toList, h, whole]
    | nil =>
      have : right.length ≤ right.length / 2 := by simpa using h
      have : right = [] := List.eq_nil_of_length_eq_zero (by omega)
      subst this
      rfl

/-- Do two pairs of stacks stand for the same row? -/
instance sameRow : Setoid TwoStacks where
  r s t := s.toList = t.toList
  iseqv := ⟨fun _ => rfl, Eq.symm, Eq.trans⟩

end TwoStacks

/-! ### The deque -/

def Deque : Type := Quotient TwoStacks.sameRow

namespace Deque

def ofStacks (s : TwoStacks) : Deque := Quotient.mk _ s

/-- The values from left to right. -/
def toList : Deque → List Value := Quotient.lift TwoStacks.toList fun _ _ h => h

/-- The deque of some values, given from left to right. -/
def ofList (values : List Value) : Deque := ofStacks ⟨values, []⟩

def empty : Deque := ofList []

def size (d : Deque) : Nat := d.toList.length

def isEmpty (d : Deque) : Bool := d.toList.isEmpty

@[simp] theorem toList_ofStacks (s : TwoStacks) : (ofStacks s).toList = s.toList := rfl

@[simp] theorem toList_ofList (values : List Value) : (ofList values).toList = values := by
  simp [ofList, TwoStacks.toList]

@[ext] theorem ext {d e : Deque} (h : d.toList = e.toList) : d = e := by
  induction d using Quotient.ind
  induction e using Quotient.ind
  exact Quotient.sound h

@[simp] theorem ofList_toList (d : Deque) : ofList d.toList = d := ext (toList_ofList _)

@[simp] theorem toList_empty : empty.toList = [] := rfl

instance : DecidableEq Deque := fun d e =>
  decidable_of_iff (d.toList = e.toList) ⟨ext, fun h => h ▸ rfl⟩

instance : Repr Deque := ⟨fun d => reprPrec d.toList⟩

/-! ### The other end first -/

def reverse : Deque → Deque :=
  Quotient.lift (fun s => ofStacks s.flip) fun s t (h : s.toList = t.toList) =>
    ext (by simp [TwoStacks.toList_flip, h])

@[simp] theorem toList_reverse (d : Deque) : d.reverse.toList = d.toList.reverse := by
  induction d using Quotient.ind
  exact TwoStacks.toList_flip _

@[simp] theorem reverse_reverse (d : Deque) : d.reverse.reverse = d := ext (by simp)

/-! ### Pushing and popping -/

def pushLeft (d : Deque) (v : Value) : Deque :=
  Quotient.lift (fun s => ofStacks (s.pushLeft v))
    (fun s t (h : s.toList = t.toList) => ext (by simp [TwoStacks.toList_pushLeft, h])) d

/-- Popping two stacks takes the first value of the row, whichever stacks stand for
    it. -/
theorem map_ofStacks_popLeft? (s : TwoStacks) :
    (s.popLeft?.map fun p => (p.1, ofStacks p.2)) =
      s.toList.head?.map (·, ofList s.toList.tail) := by
  have throughList : (fun p : Value × TwoStacks => (p.1, ofStacks p.2)) =
      (fun p : Value × List Value => (p.1, ofList p.2)) ∘ fun p => (p.1, p.2.toList) := by
    funext p
    exact Prod.ext rfl (ext (by simp))
  rw [throughList, ← Option.map_map, TwoStacks.map_toList_popLeft?, Option.map_map]
  rfl

/-- The value on the left, with the deque that remains without it. -/
def popLeft? : Deque → Option (Value × Deque) :=
  Quotient.lift (fun s => s.popLeft?.map fun p => (p.1, ofStacks p.2))
    fun s t (h : s.toList = t.toList) => by
      simp only [map_ofStacks_popLeft?, h]

def push (d : Deque) (side : Side) (v : Value) : Deque :=
  match side with
  | .left => d.pushLeft v
  | .right => (d.reverse.pushLeft v).reverse

/-- The value at an end, with the deque that remains without it. -/
def pop? (d : Deque) (side : Side) : Option (Value × Deque) :=
  match side with
  | .left => d.popLeft?
  | .right => d.reverse.popLeft?.map fun (v, rest) => (v, rest.reverse)

/-! ### Laws -/

@[simp] theorem toList_push_left (d : Deque) (v : Value) :
    (d.push .left v).toList = v :: d.toList := by
  induction d using Quotient.ind
  rfl

@[simp] theorem toList_push_right (d : Deque) (v : Value) :
    (d.push .right v).toList = d.toList ++ [v] := by
  have := toList_push_left d.reverse v
  simp only [push] at this ⊢
  simp [this]

theorem pop?_left (d : Deque) :
    d.pop? .left = d.toList.head?.map (·, ofList d.toList.tail) := by
  induction d using Quotient.ind
  exact map_ofStacks_popLeft? _

theorem pop?_right (d : Deque) :
    d.pop? .right = d.toList.getLast?.map (·, ofList d.toList.dropLast) := by
  have fromLeft := pop?_left d.reverse
  simp only [pop?] at fromLeft ⊢
  rw [fromLeft, toList_reverse, List.head?_reverse, List.tail_reverse, Option.map_map]
  congr 1
  funext v
  exact Prod.ext rfl (ext (by simp))

@[simp] theorem pop?_push (d : Deque) (side : Side) (v : Value) :
    (d.push side v).pop? side = some (v, d) := by
  cases side <;> simp [pop?_left, pop?_right]

theorem pop?_eq_some_iff {d rest : Deque} {side : Side} {v : Value} :
    d.pop? side = some (v, rest) ↔ d = rest.push side v := by
  constructor
  · intro h
    apply ext
    cases side with
    | left =>
      rw [pop?_left] at h
      obtain ⟨w, hhead, hrest⟩ := Option.map_eq_some_iff.mp h
      obtain ⟨rfl, rfl⟩ := Prod.mk.inj hrest
      obtain ⟨tail, hvalues⟩ := List.head?_eq_some_iff.mp hhead
      rw [toList_push_left, toList_ofList, hvalues, List.tail_cons]
    | right =>
      rw [pop?_right] at h
      obtain ⟨w, hlast, hrest⟩ := Option.map_eq_some_iff.mp h
      obtain ⟨rfl, rfl⟩ := Prod.mk.inj hrest
      obtain ⟨front, hvalues⟩ := List.getLast?_eq_some_iff.mp hlast
      rw [toList_push_right, toList_ofList, hvalues, List.dropLast_concat]
  · rintro rfl
    exact pop?_push rest side v

theorem pop?_eq_none_iff (d : Deque) (side : Side) : d.pop? side = none ↔ d.toList = [] := by
  cases side <;> simp [pop?_left, pop?_right]

end Deque

end DequeMachine

/-
  DequeMachine/Proofs/Machine.lean
  ================================
  **An instruction looks at the deque and at nothing else.**

  First it takes the values that it needs (`Mnemonic.pops`).  If there are too few, it has
  taken all there are, and that is the end of it.  Otherwise what it does is one of a few
  things (`Act`), and which one depends on the instruction and the deque alone
  (`Instruction.Does`, `exec_does`).  The index, the count of steps, the labels and the
  size of the program only say where the act takes place.

  So what holds of all instructions, or of all that do not jump, is seen by looking at the
  acts, of which there are six.
-/
import DequeMachine.Machine

namespace DequeMachine

/-! ### Deques from an end -/

namespace Deque

@[simp] theorem size_empty : empty.size = 0 := rfl

@[simp] theorem size_push (d : Deque) (side : Side) (v : Value) :
    (d.push side v).size = d.size + 1 := by
  cases side <;> simp [size]

theorem eq_empty_of_size {d : Deque} (h : d.size = 0) : d = .empty :=
  ext (List.eq_nil_of_length_eq_zero h)

@[simp] theorem pop?_empty (side : Side) : empty.pop? side = none :=
  (pop?_eq_none_iff empty side).mpr rfl

theorem exists_eq_push {d : Deque} (h : 0 < d.size) (side : Side) :
    ∃ v rest, d = Deque.push rest side v := by
  cases hpop : d.pop? side with
  | none =>
    rw [size, (d.pop?_eq_none_iff side).mp hpop] at h
    cases h
  | some found => exact ⟨found.1, found.2, pop?_eq_some_iff.mp hpop⟩

theorem exists_eq_push_push {d : Deque} (h : 1 < d.size) (side : Side) :
    ∃ v w rest, d = (Deque.push rest side w).push side v := by
  obtain ⟨v, left, rfl⟩ := exists_eq_push (Nat.zero_lt_of_lt h) side
  rw [size_push] at h
  obtain ⟨w, rest, rfl⟩ := exists_eq_push (Nat.lt_of_succ_lt_succ h) side
  exact ⟨v, w, rest, rfl⟩

/-- From an end, a deque has no value, or one, or at least two. -/
theorem eq_push_cases (d : Deque) (side : Side) :
    d = .empty ∨ (∃ a, d = Deque.empty.push side a) ∨
      ∃ a b rest, d = (Deque.push rest side b).push side a := by
  rcases Nat.eq_zero_or_pos d.size with hzero | hpos
  · exact .inl (eq_empty_of_size hzero)
  · obtain ⟨a, left, rfl⟩ := exists_eq_push hpos side
    rcases Nat.eq_zero_or_pos left.size with hzero | hpos
    · exact .inr (.inl ⟨a, congrArg (Deque.push · side a) (eq_empty_of_size hzero)⟩)
    · obtain ⟨b, rest, rfl⟩ := exists_eq_push hpos side
      exact .inr (.inr ⟨a, b, rest, rfl⟩)

end Deque

/-! ### Taking values -/

/-- How many values an instruction word takes. -/
def Mnemonic.pops : Mnemonic → Nat
  | .exit | .trace => 0
  | .drop | .print | .jump | .move | .dup => 1
  | .jumpIf | .operator _ | .swap | .over => 2

namespace Machine

section Taking

variable {m : Machine} {side : Side} {rest : Deque} {v w : Value}

theorem take_of_push (h : m.deque = rest.push side v) (go : Value → Machine → Effect) :
    m.take side go = go v { m with deque := rest } := by
  simp only [take, h, Deque.pop?_push]

theorem take_of_empty (h : m.deque = .empty) (go : Value → Machine → Effect) :
    m.take side go = .fail (.emptyDeque m.index) { m with deque := .empty } := by
  obtain ⟨deque, labels, index, steps, halt⟩ := m
  obtain rfl : deque = .empty := h
  simp only [take, Deque.pop?_empty]

theorem takeTwo_of_push (h : m.deque = (rest.push side w).push side v)
    (go : Value → Value → Machine → Effect) :
    m.takeTwo side go = go v w { m with deque := rest } := by
  rw [takeTwo, take_of_push h, take_of_push rfl]

/-- If the second value is missing, the first one is gone. -/
theorem takeTwo_of_lt (h : m.deque.size < 2) (go : Value → Value → Machine → Effect) :
    m.takeTwo side go = .fail (.emptyDeque m.index) { m with deque := .empty } := by
  rcases m.deque.eq_push_cases side with hempty | ⟨a, hone⟩ | ⟨a, b, rest, htwo⟩
  · rw [takeTwo, take_of_empty hempty]
  · rw [takeTwo, take_of_push hone, take_of_empty rfl]
  · rw [htwo, Deque.size_push, Deque.size_push] at h
    omega

/-- **An instruction word that needs more values than there are takes them all.** -/
theorem perform_of_lt_pops {word : Mnemonic} (size : Nat) (side : Side)
    (h : m.deque.size < word.pops) :
    m.perform size word side = .fail (.emptyDeque m.index) { m with deque := .empty } := by
  simp only [perform]
  cases word with
  | exit | trace => cases h
  | drop | print | jump | move | dup =>
    exact take_of_empty (Deque.eq_empty_of_size (Nat.lt_one_iff.mp h)) _
  | jumpIf | operator op | swap | «over» => exact takeTwo_of_lt h _

end Taking

end Machine

/-! ### What tokens mean -/

/-- A token with an instruction word, at an end of the deque. -/
structure Token.Asks (rule : StripRule) (token : String) (word : Mnemonic) (side : Side) :
    Prop where
  ofName?_eq : Mnemonic.ofName? (decode rule token).operand = some word
  side_eq : (decode rule token).side = side

namespace Instruction

variable {labels : Labels} {d : Decoded}

/-- An instruction word is one even in a token that defines a label. -/
theorem ofDecoded_eq_perform_iff {word : Mnemonic} {side : Side} :
    ofDecoded labels d = .perform word side ↔
      Mnemonic.ofName? d.operand = some word ∧ d.side = side := by
  unfold ofDecoded
  split
  · rename_i found hfound
    simp [hfound]
  · rename_i hnone
    split
    · simp [hnone]
    · split <;> simp [hnone]

theorem ofToken_eq_perform_iff {rule : StripRule} {token : String} {word : Mnemonic}
    {side : Side} : ofToken rule labels token = .perform word side ↔
      Token.Asks rule token word side := by
  rw [ofToken, ofDecoded_eq_perform_iff]
  exact ⟨fun h => ⟨h.1, h.2⟩, fun h => ⟨h.ofName?_eq, h.side_eq⟩⟩

/-- Only an operand that is nothing else has no meaning. -/
theorem ofDecoded_eq_unknown_iff {operand : String} :
    ofDecoded labels d = .unknown operand ↔
      d.operand = operand ∧ operand ≠ "" ∧ Mnemonic.ofName? operand = none ∧ d.isLabel = false ∧
        Number.read? operand = none ∧ labels.get? operand = none := by
  constructor
  · intro h
    unfold ofDecoded at h
    split at h
    · cases h
    · rename_i hword
      split at h
      · cases h
      · rename_i hskip
        split at h
        · cases h
        · rename_i hnumber
          cases h
          simp only [numberOf?] at hnumber
          split at hnumber
          · cases hnumber
          · rename_i hread
            simp only [Bool.or_eq_true, String.isEmpty_iff, not_or, Bool.not_eq_true] at hskip
            exact ⟨rfl, hskip.2, hword, hskip.1, hread, Option.map_eq_none_iff.mp hnumber⟩
  · rintro ⟨rfl, hne, hword, hlabel, hread, hget⟩
    simp [ofDecoded, numberOf?, hne, hword, hlabel, hread, hget]

/-- A name that is nothing else stands for the index of its label. -/
theorem ofDecoded_of_get? {side : Side} {name : String} {index : Nat}
    (hword : Mnemonic.ofName? name = none) (hread : Number.read? name = none)
    (hget : labels.get? name = some index) :
    ofDecoded labels ⟨side, name, false⟩ = .push side (.ofNat index) := by
  have hne : name ≠ "" := by
    rintro rfl
    cases hread
  simp [ofDecoded, numberOf?, hne, hword, hread, hget]

end Instruction

/-! ### Acts -/

/-- What an instruction may do, with the deque that it leaves. -/
inductive Act where
  /-- Go on with the next token. -/
  | go (deque : Deque)
  /-- Offer an event, and go on with the next token if it is accepted. -/
  | offer (event : Event) (deque : Deque)
  /-- Offer the end, and come to it if it is accepted. -/
  | halt
  | jump (target : Value) (deque : Deque)
  /-- Fail for want of a value. -/
  | starve
  /-- Fail for want of a meaning. -/
  | unknown (operand : String)
deriving DecidableEq, Repr

/-- What comes of an act at the place where a machine is, in a program of so many tokens. -/
def Act.effect (size : Nat) (m : Machine) : Act → Effect
  | .go deque => .next { m with deque, index := m.index + 1 }
  | .offer event deque => .offer event { m with deque, index := m.index + 1 } { m with deque }
  | .halt => .offer (.exit m.deque.toList) { m with halt := some .exit, index := size + 1 } m
  | .jump target deque => ({ m with deque } : Machine).jumpTo target
  | .starve => .fail (.emptyDeque m.index) { m with deque := .empty }
  | .unknown operand => .fail (.unknownToken m.index operand) m

namespace Instruction

/-- Does an instruction ask for a jump? -/
def isJump : Instruction → Bool
  | .perform .jump _ | .perform .jumpIf _ => true
  | _ => false

/-- The event that an instruction offers, given the deque that it is carried out
    on. -/
def shows (d : Deque) : Instruction → Option Event
  | .perform .exit _ => some (.exit d.toList)
  | .perform .trace _ => some (.trace d.toList)
  | .perform .print side => (d.pop? side).map fun (v, _) => .print v
  | _ => none

/-- Which act an instruction comes to on a deque, by what it takes from it. -/
inductive Does (d : Deque) : Instruction → Act → Prop where
  | go (i : Instruction) (deque : Deque) (hsilent : i.shows d = none) : Does d i (.go deque)
  | print (side : Side) (v : Value) (rest : Deque) (hdeque : d = rest.push side v) :
      Does d (.perform .print side) (.offer (.print v) rest)
  | trace (side : Side) : Does d (.perform .trace side) (.offer (.trace d.toList) d)
  | halt (side : Side) : Does d (.perform .exit side) .halt
  | jump (side : Side) (target : Value) (rest : Deque) (hdeque : d = rest.push side target) :
      Does d (.perform .jump side) (.jump target rest)
  | jumpIf (side : Side) (target condition : Value) (rest : Deque)
      (hdeque : d = (rest.push side condition).push side target)
      (hyes : condition.isTruthy = true) : Does d (.perform .jumpIf side) (.jump target rest)
  | starve (word : Mnemonic) (side : Side) (hfew : d.size < word.pops) :
      Does d (.perform word side) .starve
  | unknown (operand : String) : Does d (.unknown operand) (.unknown operand)

/-- What comes of an instruction, wherever it is carried out on a deque. -/
def ComesTo (d : Deque) (i : Instruction) (act : Act) : Prop :=
  ∀ size m, m.deque = d → Machine.exec size m i = act.effect size m

section Words

variable {side : Side} {v w : Value} {rest : Deque}

theorem comesTo_push (d : Deque) (side : Side) (x : Number) :
    (push side x).ComesTo d (.go (d.push side (.number x))) := by
  rintro size m rfl
  rfl

theorem comesTo_drop : (perform .drop side).ComesTo (rest.push side v) (.go rest) := by
  intro size m h
  rw [Machine.exec, Machine.perform, Machine.take_of_push h]
  rfl

theorem comesTo_operator (op : Operator) :
    (perform (.operator op) side).ComesTo ((rest.push side w).push side v)
      (.go (rest.push side (op.apply v w))) := by
  intro size m h
  rw [Machine.exec, Machine.perform, Machine.takeTwo_of_push h]
  rfl

theorem comesTo_swap :
    (perform .swap side).ComesTo ((rest.push side w).push side v)
      (.go ((rest.push side v).push side w)) := by
  intro size m h
  rw [Machine.exec, Machine.perform, Machine.takeTwo_of_push h]
  rfl

theorem comesTo_move :
    (perform .move side).ComesTo (rest.push side v) (.go (rest.push side.opposite v)) := by
  intro size m h
  rw [Machine.exec, Machine.perform, Machine.take_of_push h]
  rfl

theorem comesTo_over :
    (perform .over side).ComesTo ((rest.push side w).push side v)
      (.go (((rest.push side w).push side v).push side w)) := by
  intro size m h
  rw [Machine.exec, Machine.perform, Machine.takeTwo_of_push h]
  rfl

theorem comesTo_dup :
    (perform .dup side).ComesTo (rest.push side v) (.go ((rest.push side v).push side v)) := by
  intro size m h
  rw [Machine.exec, Machine.perform, Machine.take_of_push h]
  rfl

end Words

/-- An instruction word that has the values it needs comes to one of the acts. -/
theorem perform_does {d : Deque} {word : Mnemonic} (henough : word.pops ≤ d.size) (side : Side) :
    ∃ act, (perform word side).Does d act ∧ (perform word side).ComesTo d act := by
  cases word with
  | exit =>
    refine ⟨.halt, .halt side, ?_⟩
    rintro size m rfl
    rfl
  | trace =>
    refine ⟨.offer (.trace d.toList) d, .trace side, ?_⟩
    rintro size m rfl
    rfl
  | drop =>
    obtain ⟨v, rest, rfl⟩ := Deque.exists_eq_push henough side
    exact ⟨.go rest, .go _ _ rfl, comesTo_drop⟩
  | print =>
    obtain ⟨v, rest, hdeque⟩ := Deque.exists_eq_push henough side
    refine ⟨.offer (.print v) rest, .print side v rest hdeque, ?_⟩
    intro size m h
    rw [Machine.exec, Machine.perform, Machine.take_of_push (h.trans hdeque)]
    rfl
  | jump =>
    obtain ⟨target, rest, hdeque⟩ := Deque.exists_eq_push henough side
    refine ⟨.jump target rest, .jump side target rest hdeque, ?_⟩
    intro size m h
    rw [Machine.exec, Machine.perform, Machine.take_of_push (h.trans hdeque)]
    rfl
  | jumpIf =>
    obtain ⟨target, condition, rest, hdeque⟩ := Deque.exists_eq_push_push henough side
    by_cases hyes : condition.isTruthy = true
    · refine ⟨.jump target rest, .jumpIf side target condition rest hdeque hyes, ?_⟩
      intro size m h
      rw [Machine.exec, Machine.perform, Machine.takeTwo_of_push (h.trans hdeque), if_pos hyes]
      rfl
    · refine ⟨.go rest, .go _ _ rfl, ?_⟩
      intro size m h
      rw [Machine.exec, Machine.perform, Machine.takeTwo_of_push (h.trans hdeque), if_neg hyes]
      rfl
  | operator op =>
    obtain ⟨v, w, rest, rfl⟩ := Deque.exists_eq_push_push henough side
    exact ⟨.go (rest.push side (op.apply v w)), .go _ _ rfl, comesTo_operator op⟩
  | swap =>
    obtain ⟨v, w, rest, rfl⟩ := Deque.exists_eq_push_push henough side
    exact ⟨.go ((rest.push side v).push side w), .go _ _ rfl, comesTo_swap⟩
  | move =>
    obtain ⟨v, rest, rfl⟩ := Deque.exists_eq_push henough side
    exact ⟨.go (rest.push side.opposite v), .go _ _ rfl, comesTo_move⟩
  | «over» =>
    obtain ⟨v, w, rest, rfl⟩ := Deque.exists_eq_push_push henough side
    exact ⟨.go (((rest.push side w).push side v).push side w), .go _ _ rfl, comesTo_over⟩
  | dup =>
    obtain ⟨v, rest, rfl⟩ := Deque.exists_eq_push henough side
    exact ⟨.go ((rest.push side v).push side v), .go _ _ rfl, comesTo_dup⟩

/-- A value that is missing is not shown. -/
theorem shows_of_lt_pops {d : Deque} {word : Mnemonic} (side : Side) (h : d.size < word.pops) :
    (perform word side).shows d = none := by
  cases word with
  | exit | trace => cases h
  | print =>
    rw [Deque.eq_empty_of_size (Nat.lt_one_iff.mp h), shows, Deque.pop?_empty, Option.map_none]
  | _ => rfl

/-- **The deque alone tells what an instruction does.** -/
theorem exec_does (i : Instruction) (d : Deque) : ∃ act, i.Does d act ∧ i.ComesTo d act := by
  cases i with
  | perform word side =>
    by_cases hfew : d.size < word.pops
    · refine ⟨.starve, .starve word side hfew, ?_⟩
      rintro size m rfl
      exact Machine.perform_of_lt_pops size side hfew
    · exact perform_does (Nat.not_lt.mp hfew) side
  | skip =>
    refine ⟨.go d, .go _ d rfl, ?_⟩
    rintro size m rfl
    rfl
  | push side x => exact ⟨.go (d.push side (.number x)), .go _ _ rfl, comesTo_push d side x⟩
  | unknown operand => exact ⟨.unknown operand, .unknown operand, fun _ _ _ => rfl⟩

end Instruction

/-! ### Instructions in a row -/

namespace Machine

/-- Carry out instructions one after another, as long as they go on. -/
def execAll (size : Nat) : Machine → List Instruction → Effect
  | m, [] => .next m
  | m, i :: rest =>
    match m.exec size i with
    | .next m' => m'.execAll size rest
    | effect => effect

end Machine

end DequeMachine

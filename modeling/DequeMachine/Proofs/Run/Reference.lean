/-
  DequeMachine/Proofs/Run/Reference.lean
  ======================================
  **A label that is defined can be referred to.**

  Names and operands are cut out of tokens in different ways.  A name is all that stands in
  front of the last colon, with marks and blanks as they come, while an operand loses a mark
  on the other side.  Yet a name can always be put back into a token whose operand it is
  (`Token.decode_bang`, `Token.decode_dot`), unless the token would then say something else
  on the way: an instruction word, a literal, or a label of its own.

  Such a token pushes the index of the label (`pushes_of_refers`), in every turn of a run that
  comes to it, since the labels are the same from the start of a run to its end.
-/
import DequeMachine.Proofs.Labels
import DequeMachine.Proofs.Run.Jump
import DequeMachine.Proofs.Token

namespace DequeMachine

namespace Program

/-- Whoever carries out the token with the labels of the program puts a number on an end of the
    deque and goes on, and so does every turn of a run of the program that comes to it. -/
structure Pushes (p : Program) (rule : StripRule) (token : String) (side : Side) (x : Number) :
    Prop where
  carryOut_eq : ∀ {σ : Type} (sink : Sink σ) (task : Task) (m : Machine) (s : σ),
    task.program = p → task.config.rule = rule → Labels.ofProgram p = .ok m.labels →
    task.carryOut sink token m s =
      .going { m with deque := m.deque.push side (.number x), index := m.index + 1 } s
  run_succ_eq : ∀ {σ : Type} (sink : Sink σ) (task : Task) (start m : Machine) (state s : σ)
    (n : Nat), task.program = p → task.config.rule = rule →
    task.beginning? (task.run sink start state n) = some (m, token) →
    task.announce sink token m (task.run sink start state n).state = .accepted s →
    task.run sink start state (n + 1) = .going
      { m with
        deque := m.deque.push side (.number x), index := m.index + 1, steps := m.steps + 1 } s

variable {p : Program} {labels : Labels} {rule : StripRule} {token name : String} {side : Side}
  {i : Nat}

/-- **A token that refers to a label pushes its index.** -/
theorem pushes_of_refers (hlabels : Labels.ofProgram p = .ok labels)
    (hget : labels.get? name = some i) (hrefers : Token.Refers rule token side name) :
    p.Pushes rule token side (.ofNat i) := by
  have hcarry : ∀ {σ : Type} (sink : Sink σ) (task : Task) (m : Machine) (s : σ),
      task.config.rule = rule → m.labels = labels → task.carryOut sink token m s = .going
        { m with deque := m.deque.push side (.number (.ofNat i)), index := m.index + 1 } s := by
    rintro σ sink task m s rfl rfl
    rw [Task.carryOut, Task.instruction_of_refers hrefers hget]
    rfl
  constructor
  · intro σ sink task m s _ hrule hknown
    rw [hlabels, Except.ok.injEq] at hknown
    exact hcarry sink task m s hrule hknown.symm
  · rintro σ sink task start m state s n rfl hrule hbegin hshown
    have hknown := task.labels_run sink start state hlabels n
    obtain ⟨⟨t, hgoing⟩, -, -⟩ := Task.beginning?_eq_some_iff.mp hbegin
    rw [hgoing, Run.machine_going] at hknown
    rw [Task.run_succ, Task.next_of_beginning? sink hbegin, Task.begin_of_accepted sink hshown]
    exact hcarry sink task { m with steps := m.steps + 1 } s hrule hknown

end Program

namespace Labels

/-- **Names and references fit together.**  A name that is defined may stand behind a `!`, under
    both rules, and under `trailing` in front of a further character, unless it says something
    else there; the token defines no label, has the name for its operand and pushes the index.  A
    token is taken for a definition exactly if there is a name in it, and at the right end the
    name is the operand too, if only blanks at the end of the token are left out of account. -/
theorem references_push :
    (∀ (p : Program) (labels : Labels) (name : String) (i : Nat),
      ofProgram p = .ok labels → (name, i) ∈ labels.entries → name ≠ "" →
      Mnemonic.ofName? name = none → Number.read? name = none →
      (Text.trimEnd Text.isBlank name.toList).getLast? ≠ some ':' →
      (∀ rule, Token.labelName? ("!" ++ name) = none ∧
        Token.decode rule ("!" ++ name) = ⟨.left, name, false⟩ ∧
        p.Pushes rule ("!" ++ name) .left (.ofNat i)) ∧
      ((Text.trimStart Text.isBlank name.toList).head? ≠ some '!' →
        Token.decode .trailing (name ++ ".") = ⟨.right, name, false⟩ ∧
        p.Pushes .trailing (name ++ ".") .right (.ofNat i)) ∧
      (i ≤ 2 ^ 53 → (Number.ofNat i).worth? = some (i : ℚ))) ∧
    (∀ (rule : StripRule) (token : String),
      (Token.decode rule token).isLabel = true ↔ ∃ name, Token.labelName? token = some name) ∧
    ∀ (token name : String), Token.side token = .right → Token.labelName? token = some name →
      (Token.decode .labelOnly token).operand = name ∧
      ((∀ c ∈ token.toList.getLast?, Text.isBlank c = false) →
        (Token.decode .trailing token).operand = name) := by
  refine ⟨?_, Token.isLabel_decode_iff, ?_⟩
  · intro p labels name i hlabels hentry _ hword hliteral hcolon
    have hget : labels.get? name = some i := by
      obtain ⟨rfl, -⟩ := ofProgram_eq_ok_iff.mp hlabels
      exact (get?_ofProgram hlabels).mpr (mem_definitions_program.mp hentry)
    have hlabel : Token.isLabel name = false := beq_eq_false_iff_ne.mpr hcolon
    refine ⟨?_, ?_, Number.worth?_ofNat⟩
    · intro rule
      have hdecode := Token.decode_bang rule hlabel
      refine ⟨?_, hdecode, Program.pushes_of_refers hlabels hget ⟨hdecode, hword, hliteral⟩⟩
      have hnone := Token.isLabel_decode_iff rule ("!" ++ name)
      simpa [hdecode, ← Option.ne_none_iff_exists'] using hnone
    · intro hbang
      have hside : Token.side name = .right := if_neg hbang
      have hdecode := Token.decode_dot hside
      exact ⟨hdecode, Program.pushes_of_refers hlabels hget ⟨hdecode, hword, hliteral⟩⟩
  · intro token name hright hname
    exact ⟨Token.operand_labelOnly_of_labelName? hright hname,
      Token.operand_trailing_of_labelName? hright hname⟩

/-- A name with marks and blanks inside, referred to at both ends. -/
theorem references_push_marked :
    let p : Program := ⟨#["1.", "a:!b\u00a0:", "!a:!b\u00a0"]⟩
    p.Pushes .labelOnly "!a:!b\u00a0" .left (.ofNat 1) ∧
      p.Pushes .trailing "a:!b\u00a0." .right (.ofNat 1) ∧
      (Token.decode .labelOnly "a:!b\u00a0:").operand = "a:!b\u00a0" := by
  intro p
  have hlabels : ofProgram p = .ok ⟨[("a:!b\u00a0", 1)]⟩ := by decide +kernel
  obtain ⟨hreferred, -, hoperand⟩ := references_push
  obtain ⟨hleft, hright, -⟩ := hreferred p _ "a:!b\u00a0" 1 hlabels (by decide) (by decide)
    (by decide +kernel) (by decide +kernel) (by decide)
  have hdefined := hoperand "a:!b\u00a0:" "a:!b\u00a0" (by decide) (by decide)
  exact ⟨(hleft .labelOnly).2.2, (hright (by decide)).2, hdefined.1⟩

end Labels

end DequeMachine

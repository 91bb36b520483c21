/-
  DequeMachine/Proofs/Run/Rules.lean
  ==================================
  **The two strip rules express the same programs.**

  Under `labelOnly` a token says what it means and no more.  Under `trailing` a token for
  the left end and a token that defines a label lose their mark, which is what `labelOnly`
  takes away too, and every other token loses its last character.  So a token that gets a
  dot where it has no mark to lose is read under `trailing` as the bare one is under
  `labelOnly` (`decode_dotted`), as long as there are no blanks at its ends: these count as
  characters for one rule and not for the other.

  The labels are collected without a look at the rule, and a dot neither makes nor unmakes
  a label (`labelName?_dotted`).  So the two programs have the same labels and the same
  script, or the same fault in their labels.
-/
import DequeMachine.Proofs.Run.Script
import DequeMachine.Proofs.Run.Trace
import DequeMachine.Proofs.Text
import DequeMachine.Proofs.Token

namespace DequeMachine

namespace Token

open Text

/-! ### Tokens without blanks at their ends -/

/-- Are there no blanks at the ends of a token? -/
def isTrimmed (token : String) : Bool :=
  token.toList.head?.all (!isBlank ·) && token.toList.getLast?.all (!isBlank ·)

section Trimmed

variable {token : String} (h : isTrimmed token = true)
include h

theorem trimStart_of_isTrimmed : trimStart isBlank token.toList = token.toList := by
  apply trimStart_of_head?
  intro c hc
  simp only [isTrimmed, Bool.and_eq_true, Option.all_eq_true] at h
  simpa using h.1 c hc

theorem trimEnd_of_isTrimmed : trimEnd isBlank token.toList = token.toList := by
  apply trimEnd_of_getLast?
  intro c hc
  simp only [isTrimmed, Bool.and_eq_true, Option.all_eq_true] at h
  simpa using h.2 c hc

theorem side_of_isTrimmed :
    side token = if token.toList.head? = some '!' then .left else .right := by
  rw [side, trimStart_of_isTrimmed h]

theorem isLabel_of_isTrimmed : isLabel token = (token.toList.getLast? == some ':') := by
  rw [isLabel, trimEnd_of_isTrimmed h]

end Trimmed

/-! ### Dots -/

/-- The token with a dot behind it, unless it has the mark of the left end or of a label. -/
def dotted (token : String) : String :=
  if token.toList.head? = some '!' ∨ token.toList.getLast? = some ':' then token else token ++ "."

section Dot

variable {token : String} (h : isTrimmed token = true)
include h

theorem isLabel_eq_false (hlabel : token.toList.getLast? ≠ some ':') : isLabel token = false := by
  rw [isLabel_of_isTrimmed h, beq_eq_false_iff_ne]
  exact hlabel

/-- A dot neither makes nor unmakes a label. -/
theorem labelName?_dotted : labelName? (dotted token) = labelName? token := by
  by_cases hmarked : token.toList.head? = some '!' ∨ token.toList.getLast? = some ':'
  · rw [dotted, if_pos hmarked]
  · obtain ⟨hleft, hlabel⟩ := not_or.mp hmarked
    have hside : side token = .right := by rw [side_of_isTrimmed h, if_neg hleft]
    have hdot : isLabel (token ++ ".") = false := congrArg Decoded.isLabel (decode_dot hside)
    have hnone : ∀ {other : String}, isLabel other = false → labelName? other = none := by
      intro other hother
      rw [← Option.not_isSome_iff_eq_none, isSome_labelName?, hother]
      exact Bool.false_ne_true
    rw [dotted, if_neg hmarked, hnone hdot, hnone (isLabel_eq_false h hlabel)]

/-- **A dotted token is read under `trailing` as the bare one is under `labelOnly`.** -/
theorem decode_dotted : decode .trailing (dotted token) = decode .labelOnly token := by
  by_cases hleft : token.toList.head? = some '!'
  · -- the mark of the left end is the first character for both rules
    have hdotted : dotted token = token := if_pos (.inl hleft)
    have hside : side token = .left := by rw [side_of_isTrimmed h, if_pos hleft]
    have hstrip : dropLeading '!' token.toList = token.toList.tail := by
      obtain ⟨rest, hchars⟩ := List.head?_eq_some_iff.mp hleft
      rw [hchars, dropLeading, if_pos rfl, List.tail_cons]
    simp only [decode, operand, hdotted, hside, strip, trimStart_of_isTrimmed h, hstrip]
  · have hside : side token = .right := by rw [side_of_isTrimmed h, if_neg hleft]
    by_cases hlabel : token.toList.getLast? = some ':'
    · -- the mark of a label is the last character for both rules
      have hdotted : dotted token = token := if_pos (.inr hlabel)
      have hstrip : dropTrailing ':' token.toList = token.toList.dropLast := if_pos hlabel
      simp only [decode, operand, hdotted, hside, strip, trimEnd_of_isTrimmed h, hstrip]
    · -- without a mark, what one rule takes away is the dot and the other takes nothing
      have hdotted : dotted token = token ++ "." := if_neg (by simp [hleft, hlabel])
      have hstrip : dropTrailing ':' token.toList = token.toList := if_neg hlabel
      rw [hdotted, decode_dot hside]
      simp [decode, operand, hside, isLabel_eq_false h hlabel, strip, trimEnd_of_isTrimmed h,
        hstrip]

end Dot

end Token

/-! ### Programs -/

/-- The program with dots behind its tokens. -/
def Program.dotted (p : Program) : Program := ⟨p.tokens.map Token.dotted⟩

/-- Labels are collected by their names alone. -/
theorem Labels.scan_map {f : String → String} {tokens : List String}
    (h : ∀ token ∈ tokens, Token.labelName? (f token) = Token.labelName? token) (index : Nat)
    (known : Labels) : scan index known (tokens.map f) = scan index known tokens := by
  induction tokens generalizing index known with
  | nil => rfl
  | cons token rest ih =>
    have hrest := ih fun other hother => h other (List.mem_cons_of_mem token hother)
    rw [List.map_cons, scan, scan, h token List.mem_cons_self]
    cases Token.labelName? token with
    | none => exact hrest _ _
    | some name => simp only [hrest]

section Dotted

variable {p : Program} (hp : ∀ token ∈ p.tokens, Token.isTrimmed token = true)
include hp

theorem Labels.ofProgram_dotted : ofProgram p.dotted = ofProgram p := by
  rw [ofProgram, ofProgram, Program.dotted, Array.toList_map]
  apply scan_map
  intro token htoken
  exact Token.labelName?_dotted (hp token (Array.mem_toList_iff.mp htoken))

theorem Task.script_dotted (labels : Labels) (trace : Bool) (maxSteps : Option Nat) :
    (⟨p, { rule := .labelOnly, trace, maxSteps }⟩ : Task).script labels =
      (⟨p.dotted, { rule := .trailing, trace, maxSteps }⟩ : Task).script labels := by
  have hmeanings : p.tokens.toList.map (Instruction.ofToken .labelOnly labels) =
      p.dotted.tokens.toList.map (Instruction.ofToken .trailing labels) := by
    rw [Program.dotted, Array.toList_map, List.map_map]
    apply List.map_congr_left
    intro token htoken
    rw [Function.comp_apply, Instruction.ofToken, Instruction.ofToken,
      Token.decode_dotted (hp token (Array.mem_toList_iff.mp htoken))]
  simp only [script, meanings, hmeanings]

end Dotted

namespace Task

variable {σ τ : Type}

/-- **The two strip rules express the same programs.**  A program whose tokens have no
    blanks at their ends, run under `labelOnly`, and the same program with dots, run under
    `trailing`, come to the same result with the same machine, and show the same events, each
    with its own tokens.  This is so with all settings and with all sinks that do not answer
    differently to the different tokens. -/
theorem rules_run_alike {p : Program} (hp : ∀ token ∈ p.tokens, Token.isTrimmed token = true)
    (trace : Bool) (maxSteps : Option Nat) {R : σ → τ → Prop} {sink : Sink σ} {sink' : Sink τ}
    (hagree : sink.AgreeOn sink' p p.dotted R) (m : Machine) {s : σ} {t : τ} (h : R s t)
    (n : Nat) :
    let bare : Task := ⟨p, { rule := .labelOnly, trace, maxSteps }⟩
    let dotted : Task := ⟨p.dotted, { rule := .trailing, trace, maxSteps }⟩
    (bare.execute? sink n m s).map (fun (result, m, _) => (result, m)) =
        (dotted.execute? sink' n m t).map (fun (result, m, _) => (result, m)) ∧
      ∃ told : List Event, bare.events sink m s n = told.map p.tell ∧
        dotted.events sink' m t n = told.map p.dotted.tell := by
  intro bare dotted
  have hsame : Labels.ofProgram dotted.program = Labels.ofProgram bare.program :=
    Labels.ofProgram_dotted hp
  cases hlabels : Labels.ofProgram bare.program with
  | error fault =>
    -- neither run gets to a first turn
    have hlabels' := hsame.trans hlabels
    constructor
    · have hbare := bare.run_of_labels_error sink m s hlabels n
      have hdotted := dotted.run_of_labels_error sink' m t hlabels' n
      rw [(bare.execute?_eq_some_iff sink m s).mpr hbare,
        (dotted.execute?_eq_some_iff sink' m t).mpr hdotted]
      rfl
    · refine ⟨[], ?_, ?_⟩
      · rw [events, bare.run_of_labels_error sink.recorded m (s, []) hlabels n]
        rfl
      · rw [events, dotted.run_of_labels_error sink'.recorded m (t, []) hlabels' n]
        rfl
  | ok labels =>
    have hlabels' := hsame.trans hlabels
    have hscript : bare.script labels = dotted.script labels :=
      script_dotted hp labels trace maxSteps
    constructor
    · have halike := run_alike_of_script hlabels hlabels' hscript m hagree h n
      rw [dotted.run_relabel_self hlabels'] at halike
      exact execute?_alike bare halike fun _ _ _ _ _ => rfl
    · exact exists_told hlabels hlabels' hscript m hagree h n

/-- A loop is cut at the same place under both rules, in a row of shown steps. -/
theorem rules_run_alike_loop :
    let p : Program := ⟨#["", "2", "!3", "top:", "print", "top", "jmp"]⟩
    let bare : Task := ⟨p, { rule := .labelOnly, trace := true }⟩
    let dotted : Task := ⟨p.dotted, { trace := true }⟩
    let sink := Journal.sinkRefusing 12 "closed"
    p.dotted.tokens = #[".", "2.", "!3", "top:", "print.", "top.", "jmp."] ∧
      (∀ token ∈ p.tokens, Token.isTrimmed token = true) ∧
      (bare.execute? sink 20 .fresh .empty).map (fun (result, m, _) => (result, m)) =
        (dotted.execute? sink 20 .fresh .empty).map (fun (result, m, _) => (result, m)) ∧
      ∃ told : List Event, bare.events sink .fresh .empty 20 = told.map p.tell ∧
        dotted.events sink .fresh .empty 20 = told.map p.dotted.tell := by
  intro p bare dotted sink
  have hp : ∀ token ∈ p.tokens, Token.isTrimmed token = true := by decide +kernel
  obtain ⟨hresult, hevents⟩ := rules_run_alike hp true none
    (Journal.sinkRefusing_agreeOn 12 "closed" p p.dotted) .fresh rfl 20
  exact ⟨by decide +kernel, hp, hresult, hevents⟩

end Task

end DequeMachine

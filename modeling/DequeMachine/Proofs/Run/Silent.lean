/-
  DequeMachine/Proofs/Run/Silent.lean
  ===================================
  **Comments, blank lines and labels do nothing.**

  A line is idle if there is nothing but spaces and tabs in it, if it is a comment, or if it
  only defines labels (`Program.IsIdle`).  Its tokens are empty or define labels, and a token of
  either kind is skipped, as long as the label is no instruction word (`ofToken_eq_skip`).  What
  stands in a comment is no token at all, so it defines no label either, and the labels of a
  text are those of its other lines (`filterMap_labelName?_parse`).

  So a text of idle lines is a quiet program that puts nothing on the deque, and if its labels
  are all different, it comes to its end.
-/
import DequeMachine.Proofs.Program
import DequeMachine.Proofs.Run.Bounds
import DequeMachine.Proofs.Run.Quiet

namespace DequeMachine

variable {σ : Type}

open Program (isLineEnd isSeparator isComment lineTokens)

/-! ### Idle lines -/

/-- A token defines a label, and its operand is no instruction word. -/
def Token.OnlyDefines (rule : StripRule) (token : String) : Prop :=
  isLabel token = true ∧ Mnemonic.ofName? (decode rule token).operand = none

/-- A line of nothing but spaces and tabs, or a comment, or labels with spaces and tabs between
    them. -/
def Program.IsIdle (rule : StripRule) (line : List Char) : Prop :=
  line.all isSeparator = true ∨ isComment line = true ∨
    ∀ part ∈ line.splitOnP isSeparator, part = [] ∨ Token.OnlyDefines rule (String.ofList part)

instance (rule : StripRule) (token : String) : Decidable (Token.OnlyDefines rule token) :=
  inferInstanceAs (Decidable (_ ∧ _))

instance (rule : StripRule) (line : List Char) : Decidable (Program.IsIdle rule line) :=
  inferInstanceAs (Decidable (_ ∨ _))

/-- The labels that a text defines, outside of its comments. -/
def Program.labelNames (source : String) : List String :=
  ((source.toList.splitOnP isLineEnd).filter (!isComment ·)).flatMap fun line =>
    (line.splitOnP isSeparator).filterMap fun part => Token.labelName? (String.ofList part)

theorem Instruction.ofToken_eq_skip {rule : StripRule} {token : String}
    (h : token = "" ∨ Token.OnlyDefines rule token) (labels : Labels) :
    ofToken rule labels token = .skip := by
  rcases h with rfl | ⟨hlabel, hword⟩
  · cases rule <;> rfl
  · have hdecoded : (Token.decode rule token).isLabel = true := hlabel
    simp [ofToken, ofDecoded, hword, hdecoded]

namespace Program

/-- What there is in an idle line is skipped. -/
theorem IsIdle.token_cases {rule : StripRule} {line : List Char} (h : IsIdle rule line)
    {token : String} (htoken : token ∈ lineTokens line) :
    token = "" ∨ Token.OnlyDefines rule token := by
  cases hcomment : isComment line with
  | true =>
    rw [lineTokens_of_comment hcomment] at htoken
    exact .inl (List.mem_singleton.mp htoken)
  | false =>
    have hpart := toList_mem_splitOnP hcomment htoken
    rcases h with hblank | hhash | hlabels
    · -- all characters are separators, and none of them is in a token
      left
      rw [← String.toList_eq_nil_iff, List.eq_nil_iff_forall_not_mem]
      intro c hc
      obtain ⟨hmem, hkind⟩ := Text.mem_of_mem_splitOnP hpart hc
      rw [List.all_eq_true.mp hblank c hmem] at hkind
      cases hkind
    · rw [hhash] at hcomment
      cases hcomment
    · simpa using hlabels _ hpart

theorem filterMap_labelName?_lineTokens {line : List Char} :
    (lineTokens line).filterMap Token.labelName? =
      if isComment line then [] else (line.splitOnP isSeparator).filterMap fun part =>
        Token.labelName? (String.ofList part) := by
  cases hcomment : isComment line with
  | true =>
    rw [lineTokens_of_comment hcomment]
    rfl
  | false => simp [lineTokens, hcomment, List.filterMap_map]

/-- **Comments define no labels.** -/
theorem filterMap_labelName?_parse (source : String) :
    (parse source).tokens.toList.filterMap Token.labelName? = labelNames source := by
  simp only [parse, labelNames, List.filterMap_flatMap, filterMap_labelName?_lineTokens]
  induction source.toList.splitOnP isLineEnd with
  | nil => rfl
  | cons line rest ih =>
    cases hcomment : isComment line <;> simp [hcomment, ih]

theorem token_cases_of_isIdle {rule : StripRule} {source : String}
    (h : ∀ line ∈ source.toList.splitOnP isLineEnd, IsIdle rule line) {token : String}
    (htoken : token ∈ (parse source).tokens.toList) :
    token = "" ∨ Token.OnlyDefines rule token := by
  simp only [parse, List.mem_flatMap] at htoken
  obtain ⟨line, hline, htoken⟩ := htoken
  exact (h line hline).token_cases htoken

end Program

/-! ### Texts of idle lines -/

namespace Task

/-- **Comments, blank lines and labels do nothing.**  A text of such lines, with labels that are
    all different outside of the comments, runs to its end under either rule.  It takes a step
    for each token, leaves no value, and the sink is left as it was: it was offered no event
    at any time. -/
theorem idle_source_silent (rule : StripRule) (source : String)
    (hidle : ∀ line ∈ source.toList.splitOnP isLineEnd, Program.IsIdle rule line)
    (hnames : (Program.labelNames source).Nodup) (sink : Sink σ) (state : σ) :
    let task : Task := ⟨.parse source, { rule }⟩
    (∃ m, task.execute? sink (task.program.size + 1) .fresh state =
      some (.ok ⟨.endOfProgram, [], task.program.size⟩, m, state)) ∧
    ∀ n, task.offers sink .fresh state n = [] := by
  intro task
  have honce : task.program.DefinesOnce := by
    rwa [Labels.definesOnce_iff_nodup, Program.filterMap_labelName?_parse]
  obtain ⟨labels, hlabels⟩ : ∃ labels, Labels.ofProgram task.program = .ok labels :=
    ⟨_, Labels.ofProgram_eq_ok_iff.mpr ⟨rfl, honce⟩⟩
  have hskip : ∀ token ∈ task.program.tokens.toList,
      Instruction.ofToken task.config.rule labels token = .skip := by
    intro token htoken
    exact Instruction.ofToken_eq_skip (Program.token_cases_of_isIdle hidle htoken) labels
  have hquiet : ∀ token ∈ task.program.tokens.toList,
      (Instruction.ofToken task.config.rule labels token).isQuiet = true := by
    intro token htoken
    rw [hskip token htoken]
    rfl
  constructor
  · have hend := execute?_of_quiet hlabels rfl rfl hquiet sink .fresh state
    simp only [filled_of_skip hskip, Machine.fresh, Option.getD_none, Deque.toList_empty,
      Nat.zero_add] at hend
    exact ⟨_, hend⟩
  · intro n
    rw [offers, state_run_of_quiet hlabels rfl rfl hquiet sink.overheard .fresh (state, []) n]

/-- Neither an instruction nor a label that comes twice matters in a comment, and a mark of the
    left end makes another label of the same letters. -/
theorem idle_source_silent_comments :
    let source := "# x: 1. exit.\r\n\tx: \t!x:\n \u00a0# x: x:\n  \n"
    ∃ m, (⟨.parse source, { rule := .labelOnly }⟩ : Task).execute? Journal.sink 12 .fresh .empty =
      some (.ok ⟨.endOfProgram, [], 11⟩, m, .empty) := by
  intro source
  have hidle : ∀ line ∈ source.toList.splitOnP isLineEnd, Program.IsIdle .labelOnly line := by
    decide +kernel
  have hnames : (Program.labelNames source).Nodup := by decide +kernel
  have hsize : (Program.parse source).size = 11 := by decide +kernel
  obtain ⟨⟨m, hend⟩, _⟩ := idle_source_silent .labelOnly source hidle hnames Journal.sink .empty
  rw [hsize] at hend
  exact ⟨m, hend⟩

end Task

end DequeMachine

/-
  DequeMachine/Proofs/Program.lean
  ================================
  **From texts to tokens and back.**

  A text without line ends is one line.  Tokens that have no separators in them and
  are joined with single spaces are the tokens of that line, as long as the line as a
  whole is no comment (`parse_join`).

  Lines do not know of each other: a text that is cut at any of its line ends has the
  tokens of both halves, one after the other (`parse_append`).  A line that is no comment
  has one token more than it has separators, and with these it can be put together again;
  a comment is one empty token.  So the number of tokens can be told by counting, and
  tokens on lines of their own come back as they are (`tokens_of_lines`).
-/
import DequeMachine.Program
import DequeMachine.Proofs.Text
import Mathlib.Algebra.GroupWithZero.Nat
import Mathlib.Data.List.Basic

namespace DequeMachine.Program

open Text

theorem parse_of_line {source : String} (h : ∀ c ∈ source.toList, isLineEnd c = false) :
    parse source = ⟨(lineTokens source.toList).toArray⟩ := by
  rw [parse, List.splitOnP_eq_singleton h, List.flatMap_singleton]

theorem isComment_eq_false {line : List Char} (h : '#' ∉ line) : isComment line = false := by
  rw [isComment, beq_eq_false_iff_ne]
  intro hmark
  exact h (List.dropWhile_subset isBlank (List.mem_of_head? hmark))

theorem toList_join (tokens : List String) :
    (" ".intercalate tokens).toList = [' '].intercalate (tokens.map String.toList) :=
  String.toList_intercalate

theorem isComment_join_eq_false {tokens : List String}
    (h : ∀ token ∈ tokens, '#' ∉ token.toList) :
    isComment (" ".intercalate tokens).toList = false := by
  apply isComment_eq_false
  intro hmark
  rw [toList_join] at hmark
  rcases mem_intercalate hmark with hsep | ⟨part, hpart, hmem⟩
  · exact absurd hsep (by decide)
  · obtain ⟨token, htoken, rfl⟩ := List.mem_map.mp hpart
    exact h token htoken hmem

/-- **Tokens joined with spaces are the tokens of the text.** -/
theorem parse_join {tokens : List String} (hne : tokens ≠ [])
    (hline : ∀ token ∈ tokens, ∀ c ∈ token.toList, isLineEnd c = false)
    (htokens : ∀ token ∈ tokens, ∀ c ∈ token.toList, isSeparator c = false)
    (hcomment : isComment (" ".intercalate tokens).toList = false) :
    parse (" ".intercalate tokens) = ⟨tokens.toArray⟩ := by
  have hone : ∀ c ∈ (" ".intercalate tokens).toList, isLineEnd c = false := by
    intro c hc
    rw [toList_join] at hc
    rcases mem_intercalate hc with rfl | ⟨part, hpart, hmem⟩
    · rfl
    · obtain ⟨token, htoken, rfl⟩ := List.mem_map.mp hpart
      exact hline token htoken c hmem
  have hparts : ∀ part ∈ tokens.map String.toList, ∀ c ∈ part, isSeparator c = false := by
    intro part hpart
    obtain ⟨token, htoken, rfl⟩ := List.mem_map.mp hpart
    exact htokens token htoken
  have hsplit : (" ".intercalate tokens).toList.splitOnP isSeparator =
      tokens.map String.toList := by
    rw [toList_join]
    exact splitOnP_intercalate rfl (by simp [hne]) hparts
  rw [parse_of_line hone, lineTokens, if_neg (by rw [hcomment]; exact Bool.false_ne_true), hsplit,
    List.map_map]
  simp

/-! ### Lines -/

/-- **A line end parts the tokens.** -/
theorem parse_append {c : Char} (hc : isLineEnd c = true) (a b : String) :
    (parse (a ++ String.singleton c ++ b)).tokens = (parse a).tokens ++ (parse b).tokens := by
  have hsplit : (a ++ String.singleton c ++ b).toList.splitOnP isLineEnd =
      a.toList.splitOnP isLineEnd ++ b.toList.splitOnP isLineEnd := by
    rw [String.toList_append, String.toList_append, String.toList_singleton, List.append_assoc,
      List.singleton_append, List.splitOnP_append_cons _ _ hc]
  simp only [parse, hsplit, List.flatMap_append, List.append_toArray]

theorem isComment_iff {line : List Char} :
    isComment line = true ↔ line.find? (fun c => !isBlank c) = some '#' := by
  rw [isComment, beq_iff_eq, trimStart, List.find?_eq_head?_dropWhile_not]
  simp only [Bool.not_not]

theorem lineTokens_of_comment {line : List Char} (h : isComment line = true) :
    lineTokens line = [""] := by
  rw [lineTokens, if_pos h, List.splitOnP_nil]
  rfl

theorem map_toList_lineTokens {line : List Char} (h : isComment line = false) :
    (lineTokens line).map String.toList = line.splitOnP isSeparator := by
  rw [lineTokens, if_neg (Bool.eq_false_iff.mp h), List.map_map]
  simp [Function.comp_def]

theorem length_lineTokens (line : List Char) :
    (lineTokens line).length = 1 + if isComment line then 0 else line.countP isSeparator := by
  cases h : isComment line with
  | true => rw [lineTokens_of_comment h, if_pos rfl, List.length_singleton]
  | false =>
    rw [← List.length_map (f := String.toList), map_toList_lineTokens h, length_splitOnP,
      if_neg Bool.false_ne_true, Nat.add_comm]

theorem toList_mem_splitOnP {line : List Char} (h : isComment line = false) {token : String}
    (htoken : token ∈ lineTokens line) : token.toList ∈ line.splitOnP isSeparator := by
  rw [← map_toList_lineTokens h]
  exact List.mem_map_of_mem htoken

theorem isSeparator_of_mem_lineTokens {line : List Char} (h : isComment line = false)
    {token : String} (htoken : token ∈ lineTokens line) :
    ∀ c ∈ token.toList, isSeparator c = false :=
  kind_of_mem_splitOnP (toList_mem_splitOnP h htoken)

/-- Nothing that cuts a text is in a token of it. -/
theorem isPart_of_mem_parse {source token : String} (h : token ∈ (parse source).tokens) :
    ∀ c ∈ token.toList, isLineEnd c = false ∧ isSeparator c = false := by
  intro c hc
  simp only [parse, List.mem_toArray, List.mem_flatMap] at h
  obtain ⟨line, hline, htoken⟩ := h
  cases hcomment : isComment line with
  | true =>
    rw [lineTokens_of_comment hcomment, List.mem_singleton] at htoken
    subst htoken
    cases hc
  | false =>
    obtain ⟨hmem, hseparator⟩ := mem_of_mem_splitOnP (toList_mem_splitOnP hcomment htoken) hc
    exact ⟨(mem_of_mem_splitOnP hline hmem).2, hseparator⟩

theorem weave_lineTokens {line : List Char} (h : isComment line = false) :
    weave ((lineTokens line).map String.toList) (line.filter isSeparator) = line := by
  rw [map_toList_lineTokens h, weave_splitOnP]

/-- There is a token for each line and one for each separator that is in no comment. -/
theorem size_parse (source : String) :
    (parse source).size = 1 + source.toList.countP isLineEnd +
      (((source.toList.splitOnP isLineEnd).filter (!isComment ·)).map
        (·.countP isSeparator)).sum := by
  have hlines := length_splitOnP isLineEnd source.toList
  have hsize : (parse source).size =
      ((source.toList.splitOnP isLineEnd).map fun line => (lineTokens line).length).sum := by
    rw [size, parse, List.size_toArray, List.length_flatMap]
  rw [hsize, Nat.add_comm 1, ← hlines]
  generalize source.toList.splitOnP isLineEnd = lines
  induction lines with
  | nil => rfl
  | cons line rest ih =>
    rw [List.map_cons, List.sum_cons, ih, length_lineTokens, List.length_cons]
    cases h : isComment line with
    | true =>
      rw [List.filter_cons_of_neg (by simp [h]), if_pos rfl]
      omega
    | false =>
      rw [List.filter_cons_of_pos (by simp [h]), List.map_cons, List.sum_cons,
        if_neg Bool.false_ne_true]
      omega

theorem lineTokens_of_token {token : String}
    (hseparator : ∀ c ∈ token.toList, isSeparator c = false)
    (hcomment : isComment token.toList = false) : lineTokens token.toList = [token] := by
  rw [lineTokens, if_neg (Bool.eq_false_iff.mp hcomment), List.splitOnP_eq_singleton hseparator,
    List.map_singleton, String.ofList_toList]

/-- **Tokens on lines of their own are the tokens of the text.** -/
theorem parse_joinLines {tokens : List String} (hne : tokens ≠ [])
    (hline : ∀ token ∈ tokens, ∀ c ∈ token.toList, isLineEnd c = false)
    (hseparator : ∀ token ∈ tokens, ∀ c ∈ token.toList, isSeparator c = false)
    (hcomment : ∀ token ∈ tokens, isComment token.toList = false) :
    parse ("\n".intercalate tokens) = ⟨tokens.toArray⟩ := by
  have hparts : ∀ part ∈ tokens.map String.toList, ∀ c ∈ part, isLineEnd c = false := by
    intro part hpart
    obtain ⟨token, htoken, rfl⟩ := List.mem_map.mp hpart
    exact hline token htoken
  have hjoin : ("\n".intercalate tokens).toList = ['\n'].intercalate (tokens.map String.toList) :=
    String.toList_intercalate
  have hsingle : ∀ token ∈ tokens, lineTokens token.toList = [token] := by
    intro token htoken
    exact lineTokens_of_token (hseparator token htoken) (hcomment token htoken)
  rw [parse, hjoin, splitOnP_intercalate rfl (by simp [hne]) hparts, List.flatMap_map,
    List.flatMap_congr hsingle, List.flatMap_singleton']

/-- **What the tokens of a text are.**  The text is cut at its line ends, and each line is
    on its own.  A line with `#` as its first character that is not blank is one empty
    token.  The tokens of any other line are what stands between its spaces and tabs, and
    with these between them they are the line again.  So there is one token, and one more
    for each line end and for each space or tab outside of comments.  Any tokens that have
    no line ends, spaces and tabs in them and begin no comment are the tokens of the text
    that has them on lines of their own. -/
theorem tokens_of_lines :
    (∀ (a b : String) (c : Char), c = '\n' ∨ c = '\r' →
      (parse (a ++ String.singleton c ++ b)).tokens = (parse a).tokens ++ (parse b).tokens) ∧
    (∀ line : String, '\n' ∉ line.toList → '\r' ∉ line.toList →
      (line.toList.find? (fun c => !isBlank c) = some '#' → (parse line).tokens = #[""]) ∧
      (line.toList.find? (fun c => !isBlank c) ≠ some '#' →
        (∀ token ∈ (parse line).tokens, ' ' ∉ token.toList ∧ '\t' ∉ token.toList) ∧
        (parse line).size = (line.toList.filter isSeparator).length + 1 ∧
        weave ((parse line).tokens.toList.map String.toList) (line.toList.filter isSeparator) =
          line.toList)) ∧
    (∀ source : String, (parse source).size =
      1 + source.toList.countP (fun c => c = '\n' ∨ c = '\r') +
        (((source.toList.splitOnP (fun c => c = '\n' ∨ c = '\r')).filter
          (fun line => line.find? (fun c => !isBlank c) ≠ some '#')).map
            (·.countP (fun c => c = ' ' ∨ c = '\t'))).sum) ∧
    (∀ tokens : List String, tokens ≠ [] →
      (∀ token ∈ tokens, (∀ c ∈ [' ', '\t', '\n', '\r'], c ∉ token.toList) ∧
        token.toList.find? (fun c => !isBlank c) ≠ some '#') →
      parse ("\n".intercalate tokens) = ⟨tokens.toArray⟩) := by
  have hcomment : ∀ line : List Char,
      line.find? (fun c => !isBlank c) ≠ some '#' ↔ isComment line = false := by
    intro line
    rw [ne_eq, ← isComment_iff, Bool.not_eq_true]
  refine ⟨?append, ?line, ?count, ?join⟩
  case append =>
    rintro a b c (rfl | rfl)
    · exact parse_append rfl a b
    · exact parse_append rfl a b
  case line =>
    intro line hfeed hreturn
    have hone : parse line = ⟨(lineTokens line.toList).toArray⟩ := by
      apply parse_of_line
      intro c hc
      simp only [isLineEnd, Bool.or_eq_false_iff, beq_eq_false_iff_ne]
      exact ⟨fun h => hfeed (h ▸ hc), fun h => hreturn (h ▸ hc)⟩
    rw [hone]
    constructor
    · intro hhash
      rw [lineTokens_of_comment (isComment_iff.mpr hhash)]
    · intro hhash
      have hplain := (hcomment _).mp hhash
      refine ⟨?_, ?_, weave_lineTokens hplain⟩
      · intro token htoken
        have hkind := isSeparator_of_mem_lineTokens hplain (List.mem_toArray.mp htoken)
        exact ⟨fun h => absurd (hkind _ h) (by decide), fun h => absurd (hkind _ h) (by decide)⟩
      · rw [size, List.size_toArray, length_lineTokens, hplain, List.countP_eq_length_filter,
          Nat.add_comm]
        rfl
  case count =>
    intro source
    have hend : isLineEnd = fun c => decide (c = '\n' ∨ c = '\r') := by
      funext c
      simp [isLineEnd, Bool.decide_or, beq_eq_decide]
    have hseparator : isSeparator = fun c => decide (c = ' ' ∨ c = '\t') := by
      funext c
      simp [isSeparator, Bool.decide_or, beq_eq_decide]
    have hkept : (fun line => !isComment line) =
        fun line => decide (line.find? (fun c => !isBlank c) ≠ some '#') := by
      funext line
      rw [Bool.eq_iff_iff, Bool.not_eq_true', decide_eq_true_iff, hcomment]
    rw [size_parse, hend, hseparator, hkept]
  case join =>
    intro tokens hne htokens
    have hnone : ∀ token ∈ tokens, ∀ c ∈ token.toList, ∀ d ∈ [' ', '\t', '\n', '\r'], c ≠ d := by
      rintro token htoken c hc d hd rfl
      exact (htokens token htoken).1 c hd hc
    apply parse_joinLines hne
    · intro token htoken c hc
      simp [isLineEnd, hnone token htoken c hc]
    · intro token htoken c hc
      simp [isSeparator, hnone token htoken c hc]
    · intro token htoken
      exact (hcomment _).mp (htokens token htoken).2

/-- A carriage return before a line feed makes a line of its own, a comment may stand
    behind blanks of any kind, and two separators have an empty token between them. -/
theorem tokens_of_lines_uneven :
    (parse ("1. x:" ++ String.singleton '\r' ++ "\nx.")).tokens =
      (parse "1. x:").tokens ++ (parse "\nx.").tokens ∧
    (parse "\u00a0 # x: 1.").tokens = #[""] ∧
    weave ((parse "dup.  \tadd. ").tokens.toList.map String.toList) [' ', ' ', '\t', ' '] =
      "dup.  \tadd. ".toList ∧
    parse ("\n".intercalate ["", "!1#", ""]) = ⟨#["", "!1#", ""]⟩ := by
  refine ⟨tokens_of_lines.1 _ _ '\r' (.inr rfl), ?_, ?_, ?_⟩
  · exact (tokens_of_lines.2.1 "\u00a0 # x: 1." (by decide) (by decide)).1 (by decide)
  · exact ((tokens_of_lines.2.1 "dup.  \tadd. " (by decide) (by decide)).2 (by decide)).2.2
  · refine tokens_of_lines.2.2.2 ["", "!1#", ""] (by decide) ?_
    simp only [List.forall_mem_cons, List.not_mem_nil, false_imp_iff, implies_true, and_true]
    decide

end DequeMachine.Program

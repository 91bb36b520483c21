/-
  DequeMachine/Proofs/Listing.lean
  ================================
  **A listing tells the tokens.**

  A listing is read by cutting: the text at line feeds, and each line at tabs.  A line with
  three fields or more is about a token, and the token is what its third field quotes; every
  other line is passed over.

  A line about a token is its fields joined with tabs, and no field has a tab or a line end in
  it, for the quoted ones do not and the others are words and digits (`cut_tokenLine`).  A
  line of the label section has a name in it as it is, but the name comes from a token, so
  there is no tab and no line end in it either, and the line is one field (`tokenOf?_labelLine`).
  So the tokens that are read from a listing are those of the program, in order
  (`tokensOf_unlines`), and two programs with one listing are one program.
-/
import DequeMachine.Proofs.Command
import DequeMachine.Proofs.Labels
import DequeMachine.Proofs.Program
import DequeMachine.Proofs.Text.Quoted
import DequeMachine.Proofs.Token

namespace DequeMachine

namespace Listing

/-! ### Cutting at a mark -/

def cut (mark : Char) (text : String) : List String :=
  (text.toList.splitOnP (· == mark)).map String.ofList

theorem cut_intercalate {mark : Char} {parts : List String} (hne : parts ≠ [])
    (hparts : ∀ part ∈ parts, mark ∉ part.toList) :
    cut mark ((String.singleton mark).intercalate parts) = parts := by
  have hnone : ∀ part ∈ parts.map String.toList, ∀ c ∈ part, (c == mark) = false := by
    intro part hpart c hc
    obtain ⟨text, htext, rfl⟩ := List.mem_map.mp hpart
    rw [beq_eq_false_iff_ne]
    rintro rfl
    exact hparts text htext hc
  have hsplit : ([mark].intercalate (parts.map String.toList)).splitOnP (· == mark) =
      parts.map String.toList := by
    refine Text.splitOnP_intercalate ?_ (by simpa using hne) hnone
    exact beq_self_eq_true mark
  rw [cut, String.toList_intercalate, String.toList_singleton, hsplit, List.map_map]
  simp [Function.comp_def]

theorem cut_of_notMem {mark : Char} {text : String} (h : mark ∉ text.toList) :
    cut mark text = [text] := by
  have hone := cut_intercalate (List.cons_ne_nil text []) (by simpa using h)
  rwa [String.intercalate_singleton] at hone

theorem unlines_append (lines others : List String) :
    unlines (lines ++ others) = unlines lines ++ unlines others := by
  simp [unlines]

theorem unlines_eq_intercalate (lines : List String) :
    unlines lines = "\n".intercalate (lines ++ [""]) := by
  induction lines with
  | nil => rfl
  | cons line rest ih =>
    rw [unlines_cons, ih, List.cons_append, String.intercalate_cons_of_ne_nil (by simp)]

/-- **Lines that are put one below the other are told apart again.** -/
theorem cut_unlines {lines : List String} (h : ∀ line ∈ lines, '\n' ∉ line.toList) :
    cut '\n' (unlines lines) = lines ++ [""] := by
  rw [unlines_eq_intercalate]
  refine cut_intercalate (by simp) ?_
  intro line hline
  rcases List.mem_append.mp hline with hline | hline
  · exact h line hline
  · rw [List.mem_singleton.mp hline]
    exact List.not_mem_nil

/-! ### Lines about tokens -/

/-- Is this a single line? -/
def IsLine (text : String) : Prop := '\n' ∉ text.toList ∧ '\r' ∉ text.toList

/-- The token that a line is about, if it is about one. -/
def tokenOf? (line : String) : Option String :=
  (cut '\t' line)[2]?.bind Text.unquote?

def tokenFields (rule : StripRule) (index : Nat) (token : String) : List String :=
  let d := Token.decode rule token
  [toString index, d.side.name, Text.quote token, Text.quote d.operand] ++
    if d.isLabel then ["label"] else []

theorem tokenLine_eq (rule : StripRule) (index : Nat) (token : String) :
    tokenLine rule index token = "\t".intercalate (tokenFields rule index token) := by
  cases h : (Token.decode rule token).isLabel <;>
    simp [tokenLine, tokenFields, h, String.append_assoc]

theorem notMem_toString {c : Char} (hc : c.isDigit = false) (n : Nat) :
    c ∉ (toString n).toList := by
  intro h
  rw [Nat.toString_eq_ofList_toDigits, String.toList_ofList] at h
  rw [Nat.isDigit_of_mem_toDigits (by decide) (by decide) h] at hc
  cases hc

theorem notMem_tokenFields {c : Char} (hc : c ∈ ['\t', '\n', '\r']) {rule : StripRule} {index : Nat}
    {token field : String} (hfield : field ∈ tokenFields rule index token) : c ∉ field.toList := by
  have hwords : ∀ c ∈ ['\t', '\n', '\r'], c.isDigit = false ∧ c ∉ "left".toList ∧
      c ∉ "right".toList ∧ c ∉ "label".toList :=
    Text.forall_mem_of_all (by decide)
  obtain ⟨hdigit, hleft, hright, hlabel⟩ := hwords c hc
  have hquoted := Text.notMem_quote (List.mem_cons_of_mem '\x00' hc)
  simp only [tokenFields, List.mem_append, List.mem_cons, List.not_mem_nil, or_false] at hfield
  rcases hfield with (rfl | rfl | rfl | rfl) | hmark
  · exact notMem_toString hdigit index
  · cases (Token.decode rule token).side with
    | left => exact hleft
    | right => exact hright
  · exact hquoted token
  · exact hquoted _
  · split at hmark
    · rw [List.mem_singleton.mp hmark]
      exact hlabel
    · cases hmark

theorem cut_tokenLine (rule : StripRule) (index : Nat) (token : String) :
    cut '\t' (tokenLine rule index token) = tokenFields rule index token := by
  rw [tokenLine_eq]
  exact cut_intercalate (List.cons_ne_nil _ _) fun _ => notMem_tokenFields List.mem_cons_self

/-- **A line about a token gives the token back.** -/
theorem tokenOf?_tokenLine (rule : StripRule) (index : Nat) (token : String) :
    tokenOf? (tokenLine rule index token) = some token := by
  rw [tokenOf?, cut_tokenLine]
  exact Text.unquote?_quote token

theorem isLine_tokenLine (rule : StripRule) (index : Nat) (token : String) :
    IsLine (tokenLine rule index token) := by
  have hnone : ∀ c ∈ ['\n', '\r'], c ∉ (tokenLine rule index token).toList := by
    intro c hc h
    rw [tokenLine_eq, String.toList_intercalate] at h
    rcases Text.mem_intercalate h with rfl | ⟨part, hpart, hmem⟩
    · exact absurd hc (by decide)
    · obtain ⟨field, hfield, rfl⟩ := List.mem_map.mp hpart
      exact notMem_tokenFields (List.mem_cons_of_mem '\t' hc) hfield hmem
  exact ⟨hnone '\n' (by decide), hnone '\r' (by decide)⟩

/-! ### Lines about labels -/

theorem isPart_of_mem_entries {source : String} {labels : Labels}
    (h : Labels.ofProgram (Program.parse source) = .ok labels) {entry : String × Nat}
    (hentry : entry ∈ labels.entries) :
    ∀ c ∈ entry.1.toList, Program.isLineEnd c = false ∧ Program.isSeparator c = false := by
  intro c hc
  obtain ⟨rfl, -⟩ := Labels.ofProgram_eq_ok_iff.mp h
  obtain ⟨token, htoken, hname⟩ := Labels.mem_definitions_program.mp hentry
  obtain ⟨-, hchars⟩ := Token.labelName?_eq_some_iff.mp hname
  obtain ⟨tail, htail, -⟩ := Text.exists_trimEnd_append Text.isBlank token.toList
  refine Program.isPart_of_mem_parse (Array.mem_of_getElem? htoken) c ?_
  rw [← hchars, String.toList_ofList] at hc
  rw [htail]
  exact List.mem_append_left tail (List.dropLast_subset _ hc)

theorem notMem_labelLine {source : String} {labels : Labels}
    (h : Labels.ofProgram (Program.parse source) = .ok labels) {line : String}
    (hline : line ∈ labelLines labels) {c : Char} (hc : c ∈ ['\t', '\n', '\r']) :
    c ∉ line.toList := by
  have hwords : ∀ c ∈ ['\t', '\n', '\r'], c.isDigit = false ∧ c ∉ "labels:".toList ∧
      c ∉ "  ".toList ∧ c ∉ " = ".toList ∧
        (Program.isLineEnd c || Program.isSeparator c) = true :=
    Text.forall_mem_of_all (by decide)
  obtain ⟨hdigit, htitle, hmargin, hequals, hpart⟩ := hwords c hc
  rw [labelLines] at hline
  split at hline
  · cases hline
  · simp only [List.mem_cons, List.mem_map] at hline
    rcases hline with rfl | rfl | ⟨entry, hentry, rfl⟩
    · exact List.not_mem_nil
    · exact htitle
    · intro hmem
      simp only [labelLine, String.toList_append, List.mem_append] at hmem
      rcases hmem with ((hmem | hmem) | hmem) | hmem
      · exact hmargin hmem
      · obtain ⟨hend, hseparator⟩ := isPart_of_mem_entries h hentry c hmem
        simp [hend, hseparator] at hpart
      · exact hequals hmem
      · exact notMem_toString hdigit entry.2 hmem

/-- **No line about labels is about a token.** -/
theorem tokenOf?_labelLine {source : String} {labels : Labels}
    (h : Labels.ofProgram (Program.parse source) = .ok labels) {line : String}
    (hline : line ∈ labelLines labels) : IsLine line ∧ tokenOf? line = none := by
  have hnone : ∀ c ∈ ['\t', '\n', '\r'], c ∉ line.toList := fun _ => notMem_labelLine h hline
  refine ⟨⟨hnone '\n' (by decide), hnone '\r' (by decide)⟩, ?_⟩
  rw [tokenOf?, cut_of_notMem (hnone '\t' (by decide))]
  rfl

/-! ### Whole listings -/

theorem filterMap_mapIdx {α β : Type} {g : β → Option α} (f : Nat → α → β) (as : List α)
    (h : ∀ i a, g (f i a) = some a) : (as.mapIdx f).filterMap g = as := by
  induction as generalizing f with
  | nil => rfl
  | cons a rest ih =>
    rw [List.mapIdx_cons, List.filterMap_cons_some (h 0 a), ih _ fun i => h (i + 1)]

/-- The tokens that a listing is about. -/
def tokensOf (listing : String) : List String :=
  (cut '\n' listing).filterMap tokenOf?

/-- **The tokens of a program are read from its listing,** whatever lines follow them that are
    not about tokens. -/
theorem tokensOf_unlines (rule : StripRule) (p : Program) {others : List String}
    (hothers : ∀ line ∈ others, IsLine line ∧ tokenOf? line = none) :
    tokensOf (unlines (tokenLines rule p ++ others)) = p.tokens.toList := by
  have hlines : ∀ line ∈ tokenLines rule p ++ others, '\n' ∉ line.toList := by
    intro line hline
    rcases List.mem_append.mp hline with hline | hline
    · obtain ⟨index, -, rfl⟩ := List.mem_mapIdx.mp hline
      exact (isLine_tokenLine rule index _).1
    · exact (hothers line hline).1.1
  have hnone := List.filterMap_eq_nil_iff.mpr fun line hline => (hothers line hline).2
  have hend : tokenOf? "" = none := rfl
  rw [tokensOf, cut_unlines hlines, List.filterMap_append, List.filterMap_append, tokenLines,
    filterMap_mapIdx _ _ (tokenOf?_tokenLine rule), hnone, List.filterMap_cons_none hend,
    List.filterMap_nil, List.append_nil, List.append_nil]

end Listing

namespace Command

/-- A listing is the lines about tokens and, if the labels are good, those about labels. -/
theorem listResponse_out (config : Config) (source : String) :
    ∃ others, (listResponse config source).out =
        Listing.unlines (Listing.tokenLines config.rule (Program.parse source) ++ others) ∧
      ∀ line ∈ others, Listing.IsLine line ∧ Listing.tokenOf? line = none := by
  cases hlabels : Labels.ofProgram (Program.parse source) with
  | ok labels =>
    rw [listResponse_of_ok hlabels, ← Listing.unlines_append]
    exact ⟨_, rfl, fun _ => Listing.tokenOf?_labelLine hlabels⟩
  | error fault =>
    rw [listResponse_of_error hlabels]
    exact ⟨[], by rw [List.append_nil], List.forall_mem_nil _⟩

theorem answer?_list {d : Directory} {arguments : List String} {options : Options}
    (hoptions : Options.ofArguments arguments = .ok options) {source : String}
    (hread : d.read options.path = .ok source) (n : Nat) :
    answer? d n ("tokens" :: arguments) = some (listResponse options.config source) := by
  have hne : arguments ≠ [] := by
    rintro rfl
    cases hoptions
  simp only [answer?, ofArguments_list_eq hne, withOptions, hoptions, respond?, hread]

/-- **A listing is unambiguous.**  Each token has a single line, and the third field of that
    line, cut out at the tabs and read as a quoted text, is the token.  The lines that the
    command shows are these, one for each token of the text, and others from which no token
    can be read.  So all tokens can be read from the listing, in order, and texts with one
    listing have the same tokens. -/
theorem listing_unambiguous :
    (∀ (rule : StripRule) (index : Nat) (token : String),
      Listing.IsLine (Listing.tokenLine rule index token) ∧
        Listing.tokenOf? (Listing.tokenLine rule index token) = some token) ∧
    (∀ (d : Directory) (arguments : List String) (options : Options) (source : String) (n : Nat),
      Options.ofArguments arguments = .ok options → d.read options.path = .ok source →
        ∃ r others, answer? d n ("tokens" :: arguments) = some r ∧
          r.out = Listing.unlines
            (Listing.tokenLines options.config.rule (Program.parse source) ++ others) ∧
          (∀ line ∈ others, Listing.IsLine line ∧ Listing.tokenOf? line = none) ∧
          Listing.tokensOf r.out = (Program.parse source).tokens.toList) ∧
    (∀ (d d' : Directory) (arguments arguments' : List String) (options options' : Options)
        (source source' : String) (n n' : Nat) (r r' : Response),
      Options.ofArguments arguments = .ok options → d.read options.path = .ok source →
      Options.ofArguments arguments' = .ok options' → d'.read options'.path = .ok source' →
      answer? d n ("tokens" :: arguments) = some r →
      answer? d' n' ("tokens" :: arguments') = some r' →
      r.out = r'.out → Program.parse source = Program.parse source') := by
  have htokens : ∀ config source, Listing.tokensOf (listResponse config source).out =
      (Program.parse source).tokens.toList := by
    intro config source
    obtain ⟨others, hout, hothers⟩ := listResponse_out config source
    rw [hout, Listing.tokensOf_unlines _ _ hothers]
  refine ⟨?token, ?listing, ?same⟩
  case token =>
    intro rule index token
    exact ⟨Listing.isLine_tokenLine rule index token, Listing.tokenOf?_tokenLine rule index token⟩
  case listing =>
    intro d arguments options source n hoptions hread
    obtain ⟨others, hout, hothers⟩ := listResponse_out options.config source
    exact ⟨_, others, answer?_list hoptions hread n, hout, hothers, htokens _ _⟩
  case same =>
    intro d d' arguments arguments' options options' source source' n n' r r' hoptions hread
      hoptions' hread' hr hr' hout
    rw [answer?_list hoptions hread, Option.some.injEq] at hr
    rw [answer?_list hoptions' hread', Option.some.injEq] at hr'
    rw [← hr, ← hr'] at hout
    have hsame := congrArg Listing.tokensOf hout
    rw [htokens, htokens, Array.toList_inj] at hsame
    exact congrArg Program.mk hsame

/-- A comment and an empty line in its place have the same listing. -/
theorem listing_unambiguous_comment :
    let d : Directory := ⟨[("p", "# x:\n\"x\t\":".toUTF8)]⟩
    let d' : Directory := ⟨[("p", "\r\"x \":".toUTF8)]⟩
    ∃ r r', answer? d 0 ["tokens", "p"] = some r ∧ answer? d' 0 ["tokens", "p"] = some r' ∧
      r.out = r'.out ∧ Listing.tokensOf r.out = ["", "\"x", "\":"] ∧
      Program.parse "# x:\n\"x\t\":" = Program.parse "\r\"x \":" := by
  intro d d'
  have hoptions : Options.ofArguments ["p"] = .ok ⟨"p", {}⟩ := by rfl
  have hread : d.read "p" = .ok "# x:\n\"x\t\":" := by rfl
  have hread' : d'.read "p" = .ok "\r\"x \":" := by rfl
  obtain ⟨r, _, hr, _, _, htokens⟩ := listing_unambiguous.2.1 d ["p"] _ _ 0 hoptions hread
  obtain ⟨r', _, hr', _, _, _⟩ := listing_unambiguous.2.1 d' ["p"] _ _ 0 hoptions hread'
  have hout : r.out = r'.out := by
    have hlist : answer? d 0 ["tokens", "p"] = some (listResponse {} "# x:\n\"x\t\":") := by rfl
    have hlist' : answer? d' 0 ["tokens", "p"] = some (listResponse {} "\r\"x \":") := by rfl
    rw [hr, Option.some.injEq] at hlist
    rw [hr', Option.some.injEq] at hlist'
    rw [hlist, hlist']
    decide
  refine ⟨r, r', hr, hr', hout, htokens.trans (by decide), ?_⟩
  exact listing_unambiguous.2.2 d d' ["p"] ["p"] _ _ _ _ 0 0 r r' hoptions hread hoptions hread'
    hr hr' hout

end Command

end DequeMachine

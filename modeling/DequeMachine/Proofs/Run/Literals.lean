/-
  DequeMachine/Proofs/Run/Literals.lean
  =====================================
  **A deque of numbers, written as a program.**

  The text of a number is an operand that means that number: no instruction word is
  spelt like it, it is not empty, and it is read back as what was written.  So tokens
  made of such texts push the numbers one after another, and the program that joins
  them fills the deque and ends by itself (`literals_fill_deque`).
-/
import DequeMachine.Proofs.Labels
import DequeMachine.Proofs.Number.Text
import DequeMachine.Proofs.Program
import DequeMachine.Proofs.Run.Quiet
import DequeMachine.Proofs.Token

namespace DequeMachine

/-! ### The text of a number as an operand -/

namespace Number

theorem isPlain_of_mem_text {x : Number} (hx : x ≠ .nan) :
    ∀ c ∈ x.text.toList, Token.isPlain c = true := by
  intro c hc
  rw [text, String.toList_ofList] at hc
  have hnumeral := isNumeral_of_mem_chars hx c hc
  exact Token.isPlain_iff.mpr ⟨Layout.isBlank_of_isNumeral hnumeral,
    Layout.isNumeral_ne hnumeral rfl, Layout.isNumeral_ne hnumeral rfl⟩

theorem text_ne_empty {x : Number} (hx : x ≠ .nan) : x.text ≠ "" := by
  intro hempty
  have hchars : x.chars = [] := by
    rw [← String.toList_ofList (l := x.chars)]
    exact congrArg String.toList hempty
  rcases x with _ | ⟨_ | _, m⟩
  · exact hx rfl
  · rw [chars_positive] at hchars
    exact chars_ne_nil m hchars
  · rw [chars_negative] at hchars
    cases hchars

theorem ofName?_text {x : Number} (hx : x ≠ .nan) : Mnemonic.ofName? x.text = none := by
  have hwords : ∀ m ∈ Mnemonic.all, read? m.name = none := by decide +kernel
  cases hword : Mnemonic.ofName? x.text with
  | none => rfl
  | some m =>
    have hread := hwords m m.mem_all
    rw [Mnemonic.name_of_ofName? hword, read?_text hx] at hread
    cases hread

end Number

/-- **The text of a number means that the number is put on the deque.** -/
theorem Instruction.ofDecoded_text {x : Number} (hx : x ≠ .nan) (labels : Labels) (side : Side) :
    ofDecoded labels ⟨side, x.text, false⟩ = .push side x := by
  simp only [ofDecoded, Number.ofName?_text hx, numberOf?, Number.read?_text hx]
  simp [Number.text_ne_empty hx]

/-! ### Texts that spell values -/

/-- A text, run under a strip rule with everything else as usual, ends by itself with
    these values on the deque.  No sink notices anything of it. -/
def Spells (rule : StripRule) (source : String) (values : List Value) : Prop :=
  ∀ (σ : Type) (sink : Sink σ) (state : σ), ∃ fuel steps m,
    (⟨.parse source, { rule }⟩ : Task).execute? sink fuel .fresh state =
      some (.ok ⟨.endOfProgram, values, steps⟩, m, state)

namespace Spells

variable {rule : StripRule} {source : String}

/-- A text of tokens that define no labels and have quiet meanings spells what these
    meanings put on the deque. -/
theorem of_meanings (tokens : List String) (meanings : List Instruction)
    (hparse : Program.parse source = ⟨tokens.toArray⟩)
    (hlabels : ∀ token ∈ tokens, Token.labelName? token = none)
    (hmeanings : tokens.map (Instruction.ofToken rule .empty) = meanings)
    (hquiet : ∀ i ∈ meanings, i.isQuiet = true) :
    Spells rule source (meanings.foldl Instruction.fill .empty).toList := by
  intro σ sink state
  let task : Task := ⟨.parse source, { rule }⟩
  have htokens : task.program.tokens.toList = tokens := congrArg (·.tokens.toList) hparse
  have hscan : Labels.ofProgram task.program = .ok .empty := by
    apply Labels.ofProgram_of_unlabelled
    rw [htokens]
    exact hlabels
  have hall : ∀ token ∈ task.program.tokens.toList,
      (Instruction.ofToken task.config.rule .empty token).isQuiet = true := by
    rw [htokens]
    intro token htoken
    exact hquiet _ (hmeanings ▸ List.mem_map_of_mem htoken)
  have hfilled : task.filled .empty .empty task.program.size =
      meanings.foldl Instruction.fill .empty := by
    have hsize : task.program.size = tokens.length := by
      rw [Program.size, ← Array.length_toList, htokens]
    rw [Task.filled, htokens, hsize, List.take_length, hmeanings]
  rw [← hfilled]
  exact ⟨_, _, _, Task.execute?_of_quiet hscan rfl rfl hall sink .fresh state⟩

/-- Tokens that push numbers, made of the characters of numbers and marks of the left
    end, spell the deque that has these numbers pushed onto it. -/
theorem of_numbers {ns : List Number} (hns : ∀ x ∈ ns, x ≠ .nan) (side : Side)
    (write : Number → String)
    (hdecode : ∀ x ∈ ns, Token.decode rule (write x) = ⟨side, x.text, false⟩)
    (hchars : ∀ x ∈ ns, ∀ c ∈ (write x).toList, Layout.isNumeral c = true ∨ c = '!') :
    Spells rule (" ".intercalate (ns.map write))
      ((ns.map (Instruction.push side)).foldl Instruction.fill .empty).toList := by
  have hlabels : ∀ token ∈ ns.map write, Token.labelName? token = none := by
    intro token htoken
    obtain ⟨x, hx, rfl⟩ := List.mem_map.mp htoken
    rw [← Option.not_isSome_iff_eq_none, Token.isSome_labelName?]
    exact Bool.eq_false_iff.mp (congrArg (·.isLabel) (hdecode x hx))
  have hmeanings : (ns.map write).map (Instruction.ofToken rule .empty) =
      ns.map (Instruction.push side) := by
    rw [List.map_map]
    apply List.map_congr_left
    intro x hx
    rw [Function.comp_apply, Instruction.ofToken, hdecode x hx,
      Instruction.ofDecoded_text (hns x hx)]
  have hquiet : ∀ i ∈ ns.map (Instruction.push side), i.isQuiet = true := by
    intro i hi
    obtain ⟨x, _, rfl⟩ := List.mem_map.mp hi
    rfl
  have hclean : ∀ token ∈ ns.map write, ∀ c ∈ token.toList,
      Program.isLineEnd c = false ∧ Program.isSeparator c = false ∧ c ≠ '#' := by
    intro token htoken c hc
    obtain ⟨x, hx, rfl⟩ := List.mem_map.mp htoken
    rcases hchars x hx c hc with hnumeral | rfl
    · have hne : ∀ d, Layout.isNumeral d = false → c ≠ d := by
        intro d hd
        exact Layout.isNumeral_ne hnumeral hd
      simp [Program.isLineEnd, Program.isSeparator, hne '\n' rfl, hne '\r' rfl, hne ' ' rfl,
        hne '\t' rfl, hne '#' rfl]
    · decide
  by_cases hne : ns = []
  · -- without numbers there is one empty token, which does nothing
    subst hne
    refine of_meanings [""] [.skip] rfl (by decide) ?_ (by decide)
    cases rule <;> rfl
  · refine of_meanings (ns.map write) _ ?_ hlabels hmeanings hquiet
    exact Program.parse_join (by simp [hne]) (fun t ht c hc => (hclean t ht c hc).1)
      (fun t ht c hc => (hclean t ht c hc).2.1)
      (Program.isComment_join_eq_false fun t ht hc => (hclean t ht _ hc).2.2 rfl)

end Spells

theorem toList_fill_right (ns : List Number) (d : Deque) :
    ((ns.map (Instruction.push .right)).foldl Instruction.fill d).toList =
      d.toList ++ ns.map Value.number := by
  induction ns generalizing d with
  | nil => exact (List.append_nil _).symm
  | cons x rest ih =>
    rw [List.map_cons, List.foldl_cons, ih, Instruction.fill, Deque.toList_push_right,
      List.append_assoc]
    rfl

theorem toList_fill_left (ns : List Number) (d : Deque) :
    ((ns.map (Instruction.push .left)).foldl Instruction.fill d).toList =
      (ns.map Value.number).reverse ++ d.toList := by
  induction ns generalizing d with
  | nil => rfl
  | cons x rest ih =>
    rw [List.map_cons, List.foldl_cons, ih, Instruction.fill, Deque.toList_push_left,
      List.map_cons, List.reverse_cons, List.append_assoc]
    rfl

/-- **A deque of numbers can be written out as a program and read back.**  The numbers
    come back in their order, to the sign of a zero, from tokens with a character to be
    taken away, and under `labelOnly` from their bare texts.  From tokens for the left
    end they come back in reverse, under both rules. -/
theorem literals_fill_deque (ns : List Number) (hns : ∀ x ∈ ns, x ≠ .nan) :
    Spells .trailing (" ".intercalate (ns.map fun x => (Value.number x).text ++ "."))
        (ns.map .number) ∧
      Spells .labelOnly (" ".intercalate (ns.map fun x => (Value.number x).text))
        (ns.map .number) ∧
      ∀ rule, Spells rule (" ".intercalate (ns.map fun x => "!" ++ (Value.number x).text))
        (ns.map .number).reverse := by
  have hplain : ∀ x ∈ ns, ∀ c ∈ x.text.toList, Token.isPlain c = true := by
    intro x hx
    exact Number.isPlain_of_mem_text (hns x hx)
  have hnumeral : ∀ x ∈ ns, ∀ c ∈ x.text.toList, Layout.isNumeral c = true := by
    intro x hx c hc
    rw [Number.text, String.toList_ofList] at hc
    exact Number.isNumeral_of_mem_chars (hns x hx) c hc
  refine ⟨?trailing, ?bare, ?left⟩
  case trailing =>
    have hspells := Spells.of_numbers hns .right (fun x => x.text ++ ".")
      (fun x hx => Token.decode_trailing (hplain x hx)) fun x hx c hc => by
        rw [String.toList_append, List.mem_append] at hc
        rcases hc with hc | hc
        · exact .inl (hnumeral x hx c hc)
        · exact .inl (List.mem_singleton.mp hc ▸ rfl)
    rw [toList_fill_right] at hspells
    exact hspells
  case bare =>
    have hspells := Spells.of_numbers hns .right (fun x => x.text)
      (fun x hx => Token.decode_labelOnly (hplain x hx)) fun x hx c hc =>
        .inl (hnumeral x hx c hc)
    rw [toList_fill_right] at hspells
    exact hspells
  case left =>
    intro rule
    have hspells := Spells.of_numbers hns .left (fun x => "!" ++ x.text)
      (fun x hx => Token.decode_left (hplain x hx) rule) fun x hx c hc => by
        rw [String.toList_append, List.mem_append] at hc
        rcases hc with hc | hc
        · exact .inr (List.mem_singleton.mp hc)
        · exact .inl (hnumeral x hx c hc)
    rw [toList_fill_left, Deque.toList_empty, List.append_nil] at hspells
    exact hspells

/-- Negative zero keeps its sign, and infinity is no label. -/
theorem literals_fill_deque_extremes :
    Spells .trailing "-0. Infinity." [.number (.signed true .zero), .number .infinity] ∧
      Spells .labelOnly "-0 Infinity" [.number (.signed true .zero), .number .infinity] ∧
      Spells .trailing "!-0 !Infinity" [.number .infinity, .number (.signed true .zero)] := by
  obtain ⟨htrailing, hbare, hleft⟩ :=
    literals_fill_deque [.signed true .zero, .infinity] (by decide)
  have hzero : (Value.number (.signed true .zero)).text = "-0" := by decide +kernel
  have hinfinity : (Value.number .infinity).text = "Infinity" := by decide +kernel
  simp only [List.map_cons, List.map_nil, hzero, hinfinity] at htrailing hbare hleft
  exact ⟨htrailing, hbare, hleft .trailing⟩

end DequeMachine

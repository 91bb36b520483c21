/-
  DequeMachine/Proofs/Token.lean
  ==============================
  **Operands that come out of their tokens whole.**

  An operand can be put into a token in three ways: behind a `!` for the left end, under
  both strip rules (`decode_bang`); in front of a character that `trailing` takes away
  (`decode_dot`); and as it is under `labelOnly`.  Neither of the first two makes a mark out
  of what is in the operand: a colon at its end would still define a label, and a `!` at its
  start would still ask for the left end, but blanks and marks further inside do no harm.
  An operand without any blanks and marks is safe in all three ways.

  A token that defines a label has the label for its operand, if it is for the right end.
-/
import DequeMachine.Token
import DequeMachine.Proofs.Text

namespace DequeMachine.Token

open Text

/-! ### Marks around an operand -/

/-- Behind a `!` an operand is for the left end, under both rules. -/
theorem decode_bang (rule : StripRule) {text : String} (h : isLabel text = false) :
    decode rule ("!" ++ text) = ⟨.left, text, false⟩ := by
  have htoken : ("!" ++ text).toList = '!' :: text.toList := String.toList_append
  have hblank : isBlank '!' = false := by decide
  have hstart : trimStart isBlank ('!' :: text.toList) = '!' :: text.toList := by
    apply trimStart_of_head?
    simp [hblank]
  have hside : side ("!" ++ text) = .left := by simp [side, htoken, hstart]
  have hlabel : isLabel ("!" ++ text) = false := by
    simp only [isLabel, beq_eq_false_iff_ne] at h ⊢
    rw [htoken, trimEnd_cons hblank, List.getLast?_cons]
    cases hlast : (trimEnd isBlank text.toList).getLast? with
    | none => simp
    | some c => simpa [hlast] using h
  have hstrip : strip rule .left ('!' :: text.toList) = text.toList := by
    cases rule with
    | trailing => rfl
    | labelOnly => simp [strip, hstart, dropLeading]
  simp [decode, operand, hside, hlabel, htoken, hstrip]

/-- In front of a character that is neither blank nor a colon, an operand is what `trailing`
    leaves of the token. -/
theorem decode_dot {text : String} (h : side text = .right) :
    decode .trailing (text ++ ".") = ⟨.right, text, false⟩ := by
  have htoken : (text ++ ".").toList = text.toList ++ ['.'] := String.toList_append
  have hblank : isBlank '.' = false := by decide
  have hside : side (text ++ ".") = .right := by
    simp only [side, ite_eq_right_iff, reduceCtorEq, imp_false] at h ⊢
    rw [htoken, trimStart_concat hblank]
    cases hchars : trimStart isBlank text.toList with
    | nil => simp
    | cons c rest => simpa [hchars] using h
  have hlabel : isLabel (text ++ ".") = false := by
    have hend : trimEnd isBlank (text.toList ++ ['.']) = text.toList ++ ['.'] := by
      apply trimEnd_of_getLast?
      simp [hblank]
    simp [isLabel, htoken, hend]
  simp [decode, operand, hside, hlabel, strip, htoken]

/-! ### Tokens that define labels -/

theorem isLabel_decode_iff (rule : StripRule) (token : String) :
    (decode rule token).isLabel = true ↔ ∃ name, labelName? token = some name := by
  rw [← Option.isSome_iff_exists, isSome_labelName?]
  rfl

theorem labelName?_eq_some_iff {token name : String} :
    labelName? token = some name ↔
      (trimEnd isBlank token.toList).getLast? = some ':' ∧
        String.ofList (trimEnd isBlank token.toList).dropLast = name := by
  simp [labelName?]

section Definition

variable {token name : String} (hside : side token = .right) (h : labelName? token = some name)
include hside h

theorem operand_labelOnly_of_labelName? : operand .labelOnly token = name := by
  obtain ⟨hcolon, rfl⟩ := labelName?_eq_some_iff.mp h
  simp [operand, hside, strip, dropTrailing, hcolon]

theorem operand_trailing_of_labelName? (hlast : ∀ c ∈ token.toList.getLast?, isBlank c = false) :
    operand .trailing token = name := by
  obtain ⟨-, rfl⟩ := labelName?_eq_some_iff.mp h
  simp [operand, hside, strip, trimEnd_of_getLast? hlast]

end Definition

/-! ### Operands without blanks and marks -/

/-- Is this neither a blank nor a mark of a side or of a label? -/
def isPlain (c : Char) : Bool := !isBlank c && c != ':' && c != '!'

theorem isPlain_iff {c : Char} :
    isPlain c = true ↔ isBlank c = false ∧ c ≠ ':' ∧ c ≠ '!' := by
  simp [isPlain, and_assoc]

section Plain

variable {text : String} (htext : ∀ c ∈ text.toList, isPlain c = true)
include htext

theorem isLabel_of_isPlain : isLabel text = false := by
  rw [isLabel, beq_eq_false_iff_ne, trimEnd_eq_self fun c hc => (isPlain_iff.mp (htext c hc)).1]
  intro hlast
  exact (isPlain_iff.mp (htext _ (List.mem_of_getLast? hlast))).2.1 rfl

theorem side_of_isPlain : side text = .right := by
  rw [side, trimStart_eq_self fun c hc => (isPlain_iff.mp (htext c hc)).1]
  apply if_neg
  intro hhead
  exact (isPlain_iff.mp (htext _ (List.mem_of_head? hhead))).2.2 rfl

/-- Under `trailing` a right token loses its last character. -/
theorem decode_trailing : decode .trailing (text ++ ".") = ⟨.right, text, false⟩ :=
  decode_dot (side_of_isPlain htext)

/-- Under `labelOnly` a right token that defines no label loses nothing. -/
theorem decode_labelOnly : decode .labelOnly text = ⟨.right, text, false⟩ := by
  have hlabel := isLabel_of_isPlain htext
  have hstrip : strip .labelOnly .right text.toList = text.toList := by
    have hend : trimEnd isBlank text.toList = text.toList :=
      trimEnd_eq_self fun c hc => (isPlain_iff.mp (htext c hc)).1
    rw [isLabel, hend, beq_eq_false_iff_ne] at hlabel
    simp [strip, hend, dropTrailing, hlabel]
  simp [decode, operand, side_of_isPlain htext, hlabel, hstrip]

/-- A left token loses its mark under both rules. -/
theorem decode_left (rule : StripRule) : decode rule ("!" ++ text) = ⟨.left, text, false⟩ :=
  decode_bang rule (isLabel_of_isPlain htext)

end Plain

end DequeMachine.Token

/-
  DequeMachine/Proofs/Text/Quoted.lean
  ====================================
  **Quoted texts can be read back.**

  A reader of quoted texts goes over the characters once and keeps what it has seen of
  the character that comes next: nothing, a backslash, the letter `u` behind it, or the
  digits of a code point so far.  Whatever way a character is written, the reader gives
  that character and is between two characters again (`unquoteFrom_quoteChar`): the
  letters behind a backslash tell the characters apart that have one, none of them is
  `u`, and only a character without one is written as it is, so it is no quotation mark
  and no backslash.  The digits of a code point may be few or many, but they end at the
  brace (`unquoteFrom_toDigits`).  So every text comes back from between its quotation
  marks (`unquote?_quote`).

  The same case distinction shows that a quoted text has nothing in it that ends a field
  or a line.
-/
import DequeMachine.Number.Literal
import DequeMachine.Proofs.Text
import DequeMachine.Text.Quoted
import Mathlib.Tactic.SplitIfs

namespace DequeMachine.Text

/-! ### The reader -/

/-- The character that is written as a backslash and a letter. -/
def unescape? (letter : Char) : Option Char :=
  if letter = '0' then some '\x00'
  else if letter = 't' then some '\t'
  else if letter = 'n' then some '\n'
  else if letter = 'r' then some '\r'
  else if letter = '"' then some '"'
  else if letter = '\\' then some '\\'
  else none

/-- What a reader has seen of the next character. -/
inductive Reading where
  | nothing
  | backslash
  /-- A backslash and the letter that announces a code point. -/
  | letter
  /-- The opening brace and the digits of a code point so far. -/
  | digits (code : Nat)

/-- Read up to the quotation mark that ends the text, which has to be the last character. -/
def unquoteFrom : Reading → List Char → Option (List Char)
  | _, [] => none
  | .nothing, c :: rest =>
    if c = '"' then if rest = [] then some [] else none
    else if c = '\\' then unquoteFrom .backslash rest
    else (unquoteFrom .nothing rest).map (c :: ·)
  | .backslash, c :: rest =>
    if c = 'u' then unquoteFrom .letter rest
    else (unescape? c).bind fun d => (unquoteFrom .nothing rest).map (d :: ·)
  | .letter, c :: rest => if c = '\x7b' then unquoteFrom (.digits 0) rest else none
  | .digits code, c :: rest =>
    if c = '\x7d' then (unquoteFrom .nothing rest).map (Char.ofNat code :: ·)
    else (Literal.digit? 16 c).bind fun d => unquoteFrom (.digits (16 * code + d)) rest

def unquoteChars? : List Char → Option (List Char)
  | [] => none
  | c :: rest => if c = '"' then unquoteFrom .nothing rest else none

/-- The text that a quoted text spells. -/
def unquote? (quoted : String) : Option String :=
  (unquoteChars? quoted.toList).map String.ofList

/-! ### Characters with a letter -/

theorem escapeLetter?_eq_some {c letter : Char} (h : escapeLetter? c = some letter) :
    letter ∈ ['0', 't', 'n', 'r', '"', '\\'] ∧ unescape? letter = some c := by
  unfold escapeLetter? at h
  split_ifs at h with h₁ h₂ h₃ h₄ h₅ h₆
  all_goals
    obtain rfl := Option.some.inj h
    subst c
    decide

theorem escapeLetter?_eq_none {c : Char} (h : escapeLetter? c = none) :
    c ∉ ['\x00', '\t', '\n', '\r', '"', '\\'] := by
  unfold escapeLetter? at h
  split_ifs at h with h₁ h₂ h₃ h₄ h₅ h₆
  simp [h₁, h₂, h₃, h₄, h₅, h₆]

/-! ### Code points -/

theorem digit?_digitChar {n : Nat} (hn : n < 16) :
    Literal.digit? 16 (Nat.digitChar n) = some n ∧ Nat.digitChar n ≠ '\x7d' := by
  revert n
  decide

theorem unquoteFrom_digitChar (code : Nat) {n : Nat} (hn : n < 16) (rest : List Char) :
    unquoteFrom (.digits code) (Nat.digitChar n :: rest) =
      unquoteFrom (.digits (16 * code + n)) rest := by
  obtain ⟨hdigit, hbrace⟩ := digit?_digitChar hn
  rw [unquoteFrom, if_neg hbrace, hdigit, Option.bind_some]

/-- All digits of a number are taken in. -/
theorem unquoteFrom_toDigits (n : Nat) (rest : List Char) :
    unquoteFrom (.digits 0) (Nat.toDigits 16 n ++ rest) = unquoteFrom (.digits n) rest := by
  induction n using Nat.strongRecOn generalizing rest with
  | ind n ih =>
    by_cases hn : n < 16
    · rw [Nat.toDigits_of_lt_base hn, List.singleton_append, unquoteFrom_digitChar 0 hn,
        Nat.mul_zero, Nat.zero_add]
    · rw [Nat.toDigits_of_base_le (by decide) (Nat.not_lt.mp hn), List.append_assoc,
        ih (n / 16) (by omega), List.singleton_append,
        unquoteFrom_digitChar _ (Nat.mod_lt n (by decide)), Nat.div_add_mod]

theorem exists_of_mem_toDigits {n : Nat} {c : Char} (h : c ∈ Nat.toDigits 16 n) :
    ∃ d < 16, c = Nat.digitChar d := by
  induction n using Nat.strongRecOn with
  | ind n ih =>
    by_cases hn : n < 16
    · rw [Nat.toDigits_of_lt_base hn, List.mem_singleton] at h
      exact ⟨n, hn, h⟩
    · rw [Nat.toDigits_of_base_le (by decide) (Nat.not_lt.mp hn), List.mem_append,
        List.mem_singleton] at h
      rcases h with h | h
      · exact ih (n / 16) (by omega) h
      · exact ⟨n % 16, Nat.mod_lt n (by decide), h⟩

/-! ### Whole texts -/

/-- **Each character is read as itself,** whatever stands behind it. -/
theorem unquoteFrom_quoteChar (c : Char) (rest : List Char) :
    unquoteFrom .nothing (quoteChar c ++ rest) = (unquoteFrom .nothing rest).map (c :: ·) := by
  cases hletter : escapeLetter? c with
  | some letter =>
    obtain ⟨hmem, hback⟩ := escapeLetter?_eq_some hletter
    have hu : letter ≠ 'u' := by
      rintro rfl
      exact absurd hmem (by decide)
    simp [quoteChar, hletter, unquoteFrom, hu, hback]
  | none =>
    have hc := escapeLetter?_eq_none hletter
    simp only [List.mem_cons, List.not_mem_nil, or_false, not_or] at hc
    by_cases hprintable : isPrintable c = true
    · simp [quoteChar, hletter, hprintable, unquoteFrom, hc]
    · simp [quoteChar, hletter, hprintable, codePoint, unquoteFrom, unquoteFrom_toDigits,
        Char.ofNat_toNat]

theorem unquoteFrom_quoted (cs : List Char) :
    unquoteFrom .nothing (cs.flatMap quoteChar ++ ['"']) = some cs := by
  induction cs with
  | nil => rfl
  | cons c rest ih =>
    rw [List.flatMap_cons, List.append_assoc, unquoteFrom_quoteChar, ih, Option.map_some]

/-- **Quoting can be undone.** -/
theorem unquote?_quote (text : String) : unquote? (quote text) = some text := by
  rw [unquote?, quote, String.toList_ofList, unquoteChars?, if_pos rfl, unquoteFrom_quoted,
    Option.map_some, String.ofList_toList]

/-- What ends a text, a field or a line is not in a quoted text, since all of these
    characters have a letter. -/
theorem notMem_quoteChar {c : Char} (hc : c ∈ ['\x00', '\t', '\n', '\r']) (x : Char) :
    c ∉ quoteChar x := by
  intro h
  cases hletter : escapeLetter? x with
  | some letter =>
    have hletters : ∀ c ∈ ['\x00', '\t', '\n', '\r'],
        c ∉ '\\' :: ['0', 't', 'n', 'r', '"', '\\'] :=
      forall_mem_of_all (by decide)
    have hmem := (escapeLetter?_eq_some hletter).1
    simp only [quoteChar, hletter, List.mem_cons, List.not_mem_nil, or_false] at h
    rcases h with rfl | rfl
    · exact hletters _ hc List.mem_cons_self
    · exact hletters _ hc (List.mem_cons_of_mem _ hmem)
  | none =>
    by_cases hprintable : isPrintable x = true
    · simp only [quoteChar, hletter, hprintable, if_true, List.mem_singleton] at h
      subst h
      exact escapeLetter?_eq_none hletter (List.mem_append_left ['"', '\\'] hc)
    · have hbraces : ∀ c ∈ ['\x00', '\t', '\n', '\r'], c ∉ ['\\', 'u', '\x7b', '\x7d'] ∧
          ∀ d < 16, c ≠ Nat.digitChar d :=
        forall_mem_of_all (by decide)
      obtain ⟨hframe, hdigits⟩ := hbraces c hc
      simp only [List.mem_cons, List.not_mem_nil, or_false, not_or] at hframe
      simp only [quoteChar, hletter, hprintable, codePoint, List.mem_cons, List.mem_append,
        List.not_mem_nil, hframe, or_false, false_or, Bool.false_eq_true, if_false] at h
      obtain ⟨d, hd, hchar⟩ := exists_of_mem_toDigits h
      exact hdigits d hd hchar

theorem notMem_quote {c : Char} (hc : c ∈ ['\x00', '\t', '\n', '\r']) (text : String) :
    c ∉ (quote text).toList := by
  intro h
  simp only [quote, String.toList_ofList, List.mem_cons, List.mem_append, List.mem_flatMap,
    List.not_mem_nil, or_false] at h
  rcases h with rfl | ⟨x, _, hx⟩ | rfl
  · exact absurd hc (by decide)
  · exact notMem_quoteChar hc x hx
  · exact absurd hc (by decide)

end DequeMachine.Text

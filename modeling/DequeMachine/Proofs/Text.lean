/-
  DequeMachine/Proofs/Text.lean
  =============================
  **Trimming, joining and cutting.**

  Trimming takes away characters of a kind and nothing else, so it leaves a text alone
  that has none of them.  Joining with a separator is undone by cutting at it, as long
  as the parts have no separators in them (`splitOnP_intercalate`).  Cutting in turn loses
  nothing but the separators: with those put back between the parts, the text is there
  again (`weave_splitOnP`), and there is one part more than there are separators.
-/
import DequeMachine.Text.Blank
import Mathlib.Data.List.TakeWhile

namespace DequeMachine.Text

variable {kind : Char → Bool} {cs : List Char}

/-! ### Trimming -/

theorem exists_trimEnd_append (kind : Char → Bool) (cs : List Char) :
    ∃ tail, cs = trimEnd kind cs ++ tail ∧ ∀ c ∈ tail, kind c = true := by
  refine ⟨(cs.reverse.takeWhile kind).reverse, ?_, ?_⟩
  · rw [trimEnd, ← List.reverse_append, List.takeWhile_append_dropWhile, List.reverse_reverse]
  · intro c hc
    exact List.mem_takeWhile_imp (List.mem_reverse.mp hc)

theorem trimStart_of_head? (h : ∀ c ∈ cs.head?, kind c = false) : trimStart kind cs = cs := by
  cases cs with
  | nil => rfl
  | cons c rest =>
    rw [trimStart, List.dropWhile_cons_of_neg]
    rw [h c rfl]
    exact Bool.false_ne_true

theorem trimEnd_of_getLast? (h : ∀ c ∈ cs.getLast?, kind c = false) : trimEnd kind cs = cs := by
  have hreverse : trimStart kind cs.reverse = cs.reverse := by
    apply trimStart_of_head?
    rwa [List.head?_reverse]
  rw [trimEnd, ← trimStart, hreverse, List.reverse_reverse]

theorem trimStart_eq_self (h : ∀ c ∈ cs, kind c = false) : trimStart kind cs = cs :=
  trimStart_of_head? fun c hc => h c (List.mem_of_head? hc)

theorem trimEnd_eq_self (h : ∀ c ∈ cs, kind c = false) : trimEnd kind cs = cs :=
  trimEnd_of_getLast? fun c hc => h c (List.mem_of_getLast? hc)

theorem trim_eq_self (h : ∀ c ∈ cs, kind c = false) : trim kind cs = cs := by
  rw [trim, trimStart_eq_self h, trimEnd_eq_self h]

theorem trimStart_concat {c : Char} (hc : kind c = false) (cs : List Char) :
    trimStart kind (cs ++ [c]) = trimStart kind cs ++ [c] := by
  simp only [trimStart, List.dropWhile_append, List.isEmpty_iff]
  split
  · rename_i hnil
    simp [hnil, hc]
  · rfl

theorem trimEnd_cons {c : Char} (hc : kind c = false) (cs : List Char) :
    trimEnd kind (c :: cs) = c :: trimEnd kind cs := by
  have hreverse := trimStart_concat hc cs.reverse
  simp only [trimStart] at hreverse
  simp [trimEnd, hreverse]

theorem kind_of_getLast?_trimEnd {c : Char} (h : (trimEnd kind cs).getLast? = some c) :
    kind c = false := by
  have hhead := List.head?_dropWhile_not kind cs.reverse
  rw [trimEnd, List.getLast?_reverse] at h
  rwa [h] at hhead

/-- What was put around a text is what trimming takes away. -/
theorem trim_append {before behind : List Char} (hbefore : ∀ c ∈ before, kind c = true)
    (hbehind : ∀ c ∈ behind, kind c = true) (hne : cs ≠ [])
    (hhead : ∀ c ∈ cs.head?, kind c = false) (hlast : ∀ c ∈ cs.getLast?, kind c = false) :
    trim kind (before ++ (cs ++ behind)) = cs := by
  have hstart : trimStart kind (before ++ (cs ++ behind)) = cs ++ behind := by
    rw [trimStart, List.dropWhile_append_of_pos hbefore, ← trimStart, trimStart_of_head?]
    obtain ⟨first, rest, rfl⟩ := List.exists_cons_of_ne_nil hne
    exact hhead
  have hend : trimEnd kind (cs ++ behind) = trimEnd kind cs := by
    rw [trimEnd, List.reverse_append, List.dropWhile_append_of_pos, ← trimEnd]
    intro c hc
    exact hbehind c (List.mem_reverse.mp hc)
  rw [trim, hstart, hend, trimEnd_of_getLast? hlast]

/-! ### Joining -/

theorem mem_intercalate {sep c : Char} {parts : List (List Char)}
    (h : c ∈ [sep].intercalate parts) : c = sep ∨ ∃ part ∈ parts, c ∈ part := by
  induction parts with
  | nil => cases h
  | cons part rest ih =>
    by_cases hrest : rest = []
    · subst hrest
      rw [List.intercalate_singleton] at h
      exact .inr ⟨part, List.mem_cons_self, h⟩
    · rw [List.intercalate_cons_of_ne_nil hrest] at h
      simp only [List.append_assoc, List.mem_append, List.mem_singleton] at h
      rcases h with h | h | h
      · exact .inr ⟨part, List.mem_cons_self, h⟩
      · exact .inl h
      · rcases ih h with hsep | ⟨other, hother, hc⟩
        · exact .inl hsep
        · exact .inr ⟨other, List.mem_cons_of_mem part hother, hc⟩

theorem mem_intercalate_of_mem {sep c : Char} {part : List Char} {parts : List (List Char)}
    (hpart : part ∈ parts) (hc : c ∈ part) : c ∈ [sep].intercalate parts := by
  induction parts with
  | nil => cases hpart
  | cons first rest ih =>
    by_cases hrest : rest = []
    · subst hrest
      rwa [List.intercalate_singleton, ← List.mem_singleton.mp hpart]
    · rw [List.intercalate_cons_of_ne_nil hrest, List.append_assoc, List.mem_append]
      rcases List.mem_cons.mp hpart with rfl | hpart
      · exact .inl hc
      · exact .inr (List.mem_append_right _ (ih hpart))

/-- **Cutting undoes joining.** -/
theorem splitOnP_intercalate {sep : Char} (hsep : kind sep = true)
    {parts : List (List Char)} (hne : parts ≠ [])
    (hparts : ∀ part ∈ parts, ∀ c ∈ part, kind c = false) :
    ([sep].intercalate parts).splitOnP kind = parts := by
  induction parts with
  | nil => exact absurd rfl hne
  | cons part rest ih =>
    have hpart := hparts part List.mem_cons_self
    by_cases hrest : rest = []
    · subst hrest
      rw [List.intercalate_singleton, List.splitOnP_eq_singleton hpart]
    · rw [List.intercalate_cons_of_ne_nil hrest, List.append_assoc, List.singleton_append,
        List.splitOnP_append_cons_of_forall_mem hpart sep hsep,
        ih hrest fun other hother => hparts other (List.mem_cons_of_mem part hother)]

/-! ### Cutting -/

/-- Parts with marks between them, a mark after each part for as long as there are
    marks. -/
def weave : List (List Char) → List Char → List Char
  | [], _ => []
  | part :: _, [] => part
  | part :: parts, mark :: marks => part ++ mark :: weave parts marks

theorem weave_modifyHead_cons (c : Char) {parts : List (List Char)} (hne : parts ≠ [])
    (marks : List Char) : weave (parts.modifyHead (c :: ·)) marks = c :: weave parts marks := by
  obtain ⟨part, parts, rfl⟩ := List.exists_cons_of_ne_nil hne
  cases marks <;> rfl

/-- **Cutting loses the separators only.** -/
theorem weave_splitOnP (kind : Char → Bool) (cs : List Char) :
    weave (cs.splitOnP kind) (cs.filter kind) = cs := by
  induction cs with
  | nil => rfl
  | cons c rest ih =>
    rw [List.splitOnP_cons_eq_if_modifyHead]
    by_cases hc : kind c = true
    · rw [if_pos hc, List.filter_cons_of_pos hc, weave, ih, List.nil_append]
    · rw [if_neg hc, List.filter_cons_of_neg hc,
        weave_modifyHead_cons c (List.splitOnP_ne_nil kind rest), ih]

theorem length_splitOnP (kind : Char → Bool) (cs : List Char) :
    (cs.splitOnP kind).length = cs.countP kind + 1 := by
  induction cs with
  | nil => rfl
  | cons c rest ih =>
    rw [List.splitOnP_cons_eq_if_modifyHead]
    by_cases hc : kind c = true
    · rw [if_pos hc, List.countP_cons_of_pos hc, List.length_cons, ih]
    · rw [if_neg hc, List.countP_cons_of_neg hc, List.length_modifyHead, ih]

theorem flatten_splitOnP (kind : Char → Bool) (cs : List Char) :
    (cs.splitOnP kind).flatten = cs.filter (!kind ·) := by
  induction cs with
  | nil => rfl
  | cons c rest ih =>
    rw [List.splitOnP_cons_eq_if_modifyHead]
    by_cases hc : kind c = true
    · simp [hc, ih]
    · obtain ⟨first, others, hsplit⟩ :=
        List.exists_cons_of_ne_nil (List.splitOnP_ne_nil kind rest)
      rw [hsplit] at ih
      simp [hc, hsplit, ← ih]

theorem mem_of_mem_splitOnP {part : List Char} (hpart : part ∈ cs.splitOnP kind) {c : Char}
    (hc : c ∈ part) : c ∈ cs ∧ kind c = false := by
  have hflatten := List.mem_flatten_of_mem hpart hc
  simpa [flatten_splitOnP] using hflatten

theorem kind_of_mem_splitOnP {part : List Char} (hpart : part ∈ cs.splitOnP kind) :
    ∀ c ∈ part, kind c = false :=
  fun _ hc => (mem_of_mem_splitOnP hpart hc).2

/-! ### Characters one by one -/

/-- What holds of the first characters, as they are numbered, is found by looking at all of
    them. -/
@[elab_as_elim]
theorem of_code_lt {P : Char → Prop} {c : Char} {n : Nat} (hc : c.toNat < n)
    (h : ∀ code < n, P (Char.ofNat code)) : P c := by
  have hcode := h c.toNat hc
  rwa [Char.ofNat_toNat] at hcode

/-- What holds of all of some characters is found in the same way. -/
theorem forall_mem_of_all {P : Char → Prop} [DecidablePred P] {cs : List Char}
    (h : cs.all (fun c => decide (P c)) = true) : ∀ c ∈ cs, P c := by
  simpa using h

end DequeMachine.Text

/-
  DequeMachine/Proofs/Json/Grammar.lean
  =====================================
  **The grammar of JSON.**

  `Json` is the type of JSON values as they are written, and `Json.IsText` says that some
  characters are the text of such a value.  The relations follow the standard grammar,
  production by production: blanks may stand at both ends of the text and around each of the
  marks `[`, `]`, `{`, `}`, `:` and `,`; numbers are those spellings of decimals that have no
  plus sign, no needless zero in front and digits on both sides of the point
  (`Spelling.IsNumber`); and arrays and objects are sequences with commas, without one at the
  end (`IsSequence`).

  The other direction is for flat arrays, those without blanks and strings and with nothing
  nested inside.  Then a mark is one character, a sequence is its parts with commas between
  them (`isSequence_iff`), and a part is a name or a number (`IsValue.isAtom`).  A name or
  a number has no comma in it, so that all ways to read a flat array agree on where the
  parts are (`isText_flat_iff`).
-/
import DequeMachine.Proofs.Number.Grammar

namespace DequeMachine

/-! ### Values and texts -/

/-- A JSON value as it is written. -/
inductive Json where
  | null
  | truth (b : Bool)
  | number (s : Literal.Spelling)
  /-- The characters between the quotation marks. -/
  | string (body : List Char)
  | array (elements : List Json)
  | object (members : List (List Char × Json))

/-- A number in JSON.  The whole part and the fraction have digits, and there is no zero in
    front of other digits. -/
structure Literal.Spelling.IsNumber (s : Literal.Spelling) : Prop where
  sign_ne : s.sign ≠ .plus
  whole_ne_nil : s.whole.chars ≠ []
  whole_eq : s.whole.chars.head? = some '0' → s.whole.chars = ['0']
  fraction_ne_nil : ∀ f, s.fraction = some f → f.chars ≠ []

namespace Json

def IsBlanks (cs : List Char) : Prop := ∀ c ∈ cs, c ∈ [' ', '\t', '\n', '\r']

/-- A mark with blanks around it. -/
inductive IsMark (mark : Char) : List Char → Prop
  | mk {before behind : List Char} : IsBlanks before → IsBlanks behind →
      IsMark mark (before ++ mark :: behind)

/-- Parts with commas between them. -/
inductive IsSequence {α : Type} (IsPart : List Char → α → Prop) : List Char → List α → Prop
  | nil : IsSequence IsPart [] []
  | last {cs : List Char} {a : α} : IsPart cs a → IsSequence IsPart cs [a]
  | cons {cs comma rest : List Char} {a b : α} {others : List α} : IsPart cs a →
      IsMark ',' comma → IsSequence IsPart rest (b :: others) →
      IsSequence IsPart (cs ++ (comma ++ rest)) (a :: b :: others)

/-- What may stand between quotation marks. -/
inductive IsBody : List Char → Prop
  | nil : IsBody []
  | plain {c : Char} {rest : List Char} : 0x20 ≤ c.toNat → c ≠ '"' → c ≠ '\\' → IsBody rest →
      IsBody (c :: rest)
  | escaped {c : Char} {rest : List Char} : c ∈ ['"', '\\', '/', 'b', 'f', 'n', 'r', 't'] →
      IsBody rest → IsBody ('\\' :: c :: rest)
  | code {a b c d : Char} {rest : List Char} :
      (∀ x ∈ [a, b, c, d], (Literal.digit? 16 x).isSome = true) → IsBody rest →
      IsBody ('\\' :: 'u' :: a :: b :: c :: d :: rest)

def quoted (body : List Char) : List Char := '"' :: (body ++ ['"'])

/-- A name with a value. -/
inductive IsMember (IsPart : List Char → Json → Prop) : List Char → List Char × Json → Prop
  | mk {name colon cs : List Char} {tree : Json} : IsBody name → IsMark ':' colon →
      IsPart cs tree → IsMember IsPart (quoted name ++ (colon ++ cs)) (name, tree)

/-- A name or a number. -/
inductive IsAtom : List Char → Json → Prop
  | null : IsAtom "null".toList .null
  | yes : IsAtom "true".toList (.truth true)
  | no : IsAtom "false".toList (.truth false)
  | number {s : Literal.Spelling} : s.IsNumber → IsAtom s.chars (.number s)

inductive IsValue : List Char → Json → Prop
  | atom {cs : List Char} {tree : Json} : IsAtom cs tree → IsValue cs tree
  | string {body : List Char} : IsBody body → IsValue (quoted body) (.string body)
  | array {opening cs closing : List Char} {elements : List Json} : IsMark '[' opening →
      IsSequence IsValue cs elements → IsMark ']' closing →
      IsValue (opening ++ (cs ++ closing)) (.array elements)
  | object {opening cs closing : List Char} {members : List (List Char × Json)} :
      IsMark '\x7b' opening → IsSequence (IsMember IsValue) cs members → IsMark '\x7d' closing →
      IsValue (opening ++ (cs ++ closing)) (.object members)

inductive IsText : List Char → Json → Prop
  | mk {before cs behind : List Char} {tree : Json} : IsBlanks before → IsValue cs tree →
      IsBlanks behind → IsText (before ++ (cs ++ behind)) tree

/-! ### Names and numbers -/

theorem IsAtom.isLiteralChar {cs : List Char} {tree : Json} (h : IsAtom cs tree) :
    ∀ c ∈ cs, Literal.isLiteralChar c = true := by
  cases h with
  | null => exact List.all_eq_true.mp (by decide)
  | yes => exact List.all_eq_true.mp (by decide)
  | no => exact List.all_eq_true.mp (by decide)
  | number => exact Literal.Spelling.isLiteralChar _

theorem IsAtom.ne_nil {cs : List Char} {tree : Json} (h : IsAtom cs tree) : cs ≠ [] := by
  cases h with
  | null => decide
  | yes => decide
  | no => decide
  | @number s _ =>
    obtain ⟨first, behind, hcons, -⟩ := Literal.exists_unsigned_eq_cons s
    simp [Literal.Spelling.chars, hcons]

/-! ### Texts without blanks -/

def IsSolid (cs : List Char) : Prop := ∀ c ∈ cs, c ∉ [' ', '\t', '\n', '\r']

section Solid

variable {cs others : List Char}

theorem isSolid_append : IsSolid (cs ++ others) ↔ IsSolid cs ∧ IsSolid others := by
  simp only [IsSolid, List.mem_append, or_imp, forall_and]

theorem IsBlanks.eq_nil (h : IsBlanks cs) (hsolid : IsSolid cs) : cs = [] := by
  rw [List.eq_nil_iff_forall_not_mem]
  intro c hc
  exact hsolid c hc (h c hc)

theorem isMark_singleton (mark : Char) : IsMark mark [mark] :=
  .mk (List.forall_mem_nil _) (List.forall_mem_nil _)

theorem IsMark.mem {mark : Char} (h : IsMark mark cs) : mark ∈ cs := by
  cases h
  exact List.mem_append_right _ List.mem_cons_self

theorem IsMark.eq_singleton {mark : Char} (h : IsMark mark cs) (hsolid : IsSolid cs) :
    cs = [mark] := by
  obtain ⟨hbefore, hbehind⟩ := h
  rw [← List.singleton_append, isSolid_append, isSolid_append] at hsolid
  rw [hbefore.eq_nil hsolid.1, hbehind.eq_nil hsolid.2.2]
  rfl

/-- A sequence without blanks is its parts with commas between them. -/
theorem isSequence_iff {α : Type} {IsPart : List Char → α → Prop} {as : List α}
    (hsolid : IsSolid cs) : IsSequence IsPart cs as ↔
      ∃ parts, cs = [','].intercalate parts ∧ List.Forall₂ IsPart parts as := by
  constructor
  · intro h
    induction h with
    | nil => exact ⟨[], rfl, .nil⟩
    | last h => exact ⟨[_], List.intercalate_singleton.symm, .cons h .nil⟩
    | cons h hcomma _ ih =>
      rw [isSolid_append, isSolid_append] at hsolid
      obtain ⟨parts, rfl, hparts⟩ := ih hsolid.2.2
      have hne : parts ≠ [] := by
        rintro rfl
        cases hparts
      refine ⟨_ :: parts, ?_, .cons h hparts⟩
      rw [hcomma.eq_singleton hsolid.2.1, List.intercalate_cons_of_ne_nil hne, List.append_assoc]
  · rintro ⟨parts, rfl, h⟩
    clear hsolid
    induction h with
    | nil => exact .nil
    | cons hpart hrest ih =>
      cases hrest with
      | nil =>
        rw [List.intercalate_singleton]
        exact .last hpart
      | cons hnext hrest =>
        rw [List.intercalate_cons_of_ne_nil (List.cons_ne_nil _ _), List.append_assoc]
        exact .cons hpart (isMark_singleton ',') ih

end Solid

/-! ### Flat arrays -/

/-- Parts with commas between them, in brackets. -/
def flat (parts : List (List Char)) : List Char := '[' :: ([','].intercalate parts ++ [']'])

/-- What has no mark that opens anything is a name or a number. -/
theorem IsValue.isAtom {cs : List Char} {tree : Json} (h : IsValue cs tree)
    (hopen : ∀ c ∈ ['"', '[', '\x7b'], c ∉ cs) : IsAtom cs tree := by
  cases h with
  | atom h => exact h
  | string _ => exact absurd List.mem_cons_self (hopen '"' (by decide))
  | array h _ _ => exact absurd (List.mem_append_left _ h.mem) (hopen '[' (by decide))
  | object h _ _ => exact absurd (List.mem_append_left _ h.mem) (hopen '\x7b' (by decide))

/-- Different rows of names and numbers are different texts. -/
theorem intercalate_injective {parts parts' : List (List Char)}
    (hparts : ∀ part ∈ parts, ∃ tree, IsAtom part tree)
    (hparts' : ∀ part ∈ parts', ∃ tree, IsAtom part tree)
    (h : [','].intercalate parts = [','].intercalate parts') : parts = parts' := by
  have hcut : ∀ parts, (∀ part ∈ parts, ∃ tree, IsAtom part tree) → parts ≠ [] →
      ([','].intercalate parts).splitOnP (· == ',') = parts ∧ [','].intercalate parts ≠ [] := by
    intro parts hparts hne
    have hcomma : ∀ part ∈ parts, ∀ c ∈ part, (c == ',') = false := by
      intro part hpart c hc
      obtain ⟨tree, htree⟩ := hparts part hpart
      rw [beq_eq_false_iff_ne]
      rintro rfl
      exact absurd (htree.isLiteralChar ',' hc) (by decide)
    have hsplit : ([','].intercalate parts).splitOnP (· == ',') = parts :=
      Text.splitOnP_intercalate (by decide) hne hcomma
    refine ⟨hsplit, ?_⟩
    intro hnil
    rw [hnil, List.splitOnP_nil] at hsplit
    obtain ⟨tree, htree⟩ := hparts [] (hsplit ▸ List.mem_cons_self)
    exact htree.ne_nil rfl
  by_cases hnil : parts = []
  · subst hnil
    by_contra hne
    exact (hcut parts' hparts' (Ne.symm hne)).2 h.symm
  · by_cases hnil' : parts' = []
    · subst hnil'
      exact absurd h (hcut parts hparts hnil).2
    · rw [← (hcut parts hparts hnil).1, h, (hcut parts' hparts' hnil').1]

section Flat

variable {parts : List (List Char)} (hparts : ∀ part ∈ parts, ∃ tree, IsAtom part tree)
include hparts

theorem notMem_intercalate {c : Char} (hc : Literal.isLiteralChar c = false) (hcomma : c ≠ ',') :
    c ∉ [','].intercalate parts := by
  intro h
  rcases Text.mem_intercalate h with hsep | ⟨part, hpart, hmem⟩
  · exact hcomma hsep
  · obtain ⟨tree, htree⟩ := hparts part hpart
    rw [htree.isLiteralChar c hmem] at hc
    cases hc

theorem isSolid_flat : IsSolid (flat parts) := by
  have hkinds : ∀ c ∈ [' ', '\t', '\n', '\r'],
      Literal.isLiteralChar c = false ∧ c ≠ ',' ∧ c ≠ '[' ∧ c ≠ ']' :=
    Text.forall_mem_of_all (by decide)
  intro c hc hblank
  obtain ⟨hliteral, hcomma, hopening, hclosing⟩ := hkinds c hblank
  simp only [flat, List.mem_cons, List.mem_append, List.not_mem_nil, or_false] at hc
  rcases hc with hc | hc | hc
  · exact hopening hc
  · exact notMem_intercalate hparts hliteral hcomma hc
  · exact hclosing hc

/-- An array in flat text is a sequence of names and numbers. -/
theorem isValue_flat {tree : Json} (h : IsValue (flat parts) tree) :
    ∃ elements, tree = .array elements ∧ IsSequence IsValue ([','].intercalate parts) elements := by
  have hsolid := isSolid_flat hparts
  generalize htext : flat parts = text at h hsolid
  cases h with
  | atom h =>
    subst htext
    exact absurd (h.isLiteralChar '[' List.mem_cons_self) (by decide)
  | string _ => exact absurd (List.cons.inj htext).1 (by decide)
  | array hopening hsequence hclosing =>
    rw [isSolid_append, isSolid_append] at hsolid
    rw [hopening.eq_singleton hsolid.1, hclosing.eq_singleton hsolid.2.2, flat,
      List.singleton_append, List.cons.injEq] at htext
    rw [List.append_cancel_right htext.2]
    exact ⟨_, rfl, hsequence⟩
  | object hopening _ _ =>
    rw [isSolid_append] at hsolid
    rw [hopening.eq_singleton hsolid.1] at htext
    exact absurd (List.cons.inj htext).1 (by decide)

/-- **A flat array is read in one way,** part by part. -/
theorem isText_flat_iff {tree : Json} : IsText (flat parts) tree ↔
    ∃ elements, tree = .array elements ∧ List.Forall₂ IsAtom parts elements := by
  have hsolid := isSolid_flat hparts
  have hinside : IsSolid ([','].intercalate parts) := by
    rw [flat, ← List.singleton_append, isSolid_append, isSolid_append] at hsolid
    exact hsolid.2.1
  constructor
  · intro h
    have hvalue : IsValue (flat parts) tree := by
      generalize flat parts = text at h hsolid
      obtain ⟨hbefore, hvalue, hbehind⟩ := h
      rw [isSolid_append, isSolid_append] at hsolid
      rwa [hbefore.eq_nil hsolid.1, hbehind.eq_nil hsolid.2.2, List.nil_append, List.append_nil]
    obtain ⟨elements, rfl, hsequence⟩ := isValue_flat hparts hvalue
    obtain ⟨parts', hsame, hvalues⟩ := (isSequence_iff hinside).mp hsequence
    have hkinds : ∀ c ∈ ['"', '[', '\x7b'], Literal.isLiteralChar c = false ∧ c ≠ ',' :=
      Text.forall_mem_of_all (by decide)
    have hopen : ∀ part ∈ parts', ∀ c ∈ ['"', '[', '\x7b'], c ∉ part := by
      intro part hpart c hc hmem
      apply notMem_intercalate hparts (hkinds c hc).1 (hkinds c hc).2
      rw [hsame]
      exact Text.mem_intercalate_of_mem hpart hmem
    have hatoms : List.Forall₂ IsAtom parts' elements :=
      ((List.forall₂_and_left _ _).mpr ⟨hopen, hvalues⟩).imp fun _ _ h => h.2.isAtom h.1
    have hparts' : ∀ part ∈ parts', ∃ tree, IsAtom part tree :=
      ((List.forall₂_and_left _ _).mp (hatoms.imp fun _ tree h => ⟨⟨tree, h⟩, h⟩)).1
    rw [intercalate_injective hparts hparts' hsame]
    exact ⟨elements, rfl, hatoms⟩
  · rintro ⟨elements, rfl, hatoms⟩
    have hsequence := (isSequence_iff hinside).mpr ⟨parts, rfl, hatoms.imp fun _ _ => IsValue.atom⟩
    have hvalue : IsValue (flat parts) (.array elements) :=
      .array (isMark_singleton '[') hsequence (isMark_singleton ']')
    have htext := IsText.mk (List.forall_mem_nil _) hvalue (List.forall_mem_nil _)
    rwa [List.nil_append, List.append_nil] at htext

end Flat

end Json

end DequeMachine

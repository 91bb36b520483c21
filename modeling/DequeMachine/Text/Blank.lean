/-
  DequeMachine/Text/Blank.lean
  ============================
  **Blank characters, and cutting text at characters.**

  Texts are taken apart as lists of characters.  A character is blank when it
  has the Unicode property `White_Space`; there are 25 of those, in ten runs of
  code points.  The functions below remove characters of a kind from the ends of
  a text and cut a text at the first character of a kind.
-/

namespace DequeMachine.Text

/-! ### Blank characters -/

/-- The runs of code points with the property `White_Space`, both ends included. -/
def blankRuns : List (Nat × Nat) :=
  [(0x0009, 0x000D), (0x0020, 0x0020), (0x0085, 0x0085), (0x00A0, 0x00A0), (0x1680, 0x1680),
   (0x2000, 0x200A), (0x2028, 0x2029), (0x202F, 0x202F), (0x205F, 0x205F), (0x3000, 0x3000)]

def isBlank (c : Char) : Bool :=
  blankRuns.any fun (first, last) => first ≤ c.toNat && c.toNat ≤ last

/-! ### Trimming -/

/-- The text without the characters of a kind at its start. -/
def trimStart (kind : Char → Bool) (cs : List Char) : List Char :=
  cs.dropWhile kind

/-- The text without the characters of a kind at its end. -/
def trimEnd (kind : Char → Bool) (cs : List Char) : List Char :=
  (cs.reverse.dropWhile kind).reverse

/-- The text without the characters of a kind at both ends. -/
def trim (kind : Char → Bool) (cs : List Char) : List Char :=
  trimEnd kind (trimStart kind cs)

/-- The text without one character at its start, if it is that character. -/
def dropLeading (c : Char) : List Char → List Char
  | [] => []
  | x :: rest => if x = c then rest else x :: rest

/-- The text without one character at its end, if it is that character. -/
def dropTrailing (c : Char) (cs : List Char) : List Char :=
  if cs.getLast? = some c then cs.dropLast else cs

/-! ### Cutting -/

/-- What stands before the first character of a kind and, if there is such a
    character, what stands behind it. -/
def cutAt (kind : Char → Bool) : List Char → List Char × Option (List Char)
  | [] => ([], none)
  | c :: rest =>
    if kind c then ([], some rest)
    else
      let (before, behind) := cutAt kind rest
      (c :: before, behind)

/-! ### Laws -/

theorem cutAt_of_forall {kind : Char → Bool} {cs : List Char} (h : ∀ c ∈ cs, kind c = false) :
    cutAt kind cs = (cs, none) := by
  induction cs with
  | nil => rfl
  | cons c rest ih =>
    have hc : kind c = false := h c (by simp)
    have hrest : cutAt kind rest = (rest, none) := ih fun x hx => h x (by simp [hx])
    simp [cutAt, hc, hrest]

theorem cutAt_append_cons {kind : Char → Bool} {before behind : List Char} {c : Char}
    (hbefore : ∀ x ∈ before, kind x = false) (hc : kind c = true) :
    cutAt kind (before ++ c :: behind) = (before, some behind) := by
  induction before with
  | nil => simp [cutAt, hc]
  | cons x rest ih =>
    have hx : kind x = false := hbefore x (by simp)
    have hrest := ih fun y hy => hbefore y (by simp [hy])
    simp [cutAt, hx, hrest]

theorem eq_of_cutAt {kind : Char → Bool} {cs before : List Char} {behind : Option (List Char)}
    (h : cutAt kind cs = (before, behind)) :
    (behind = none ∧ cs = before) ∨
      ∃ c rest, behind = some rest ∧ kind c = true ∧ cs = before ++ c :: rest := by
  induction cs generalizing before with
  | nil =>
    cases h
    exact .inl ⟨rfl, rfl⟩
  | cons c rest ih =>
    rw [cutAt] at h
    split at h
    · rename_i hc
      cases h
      exact .inr ⟨c, rest, rfl, hc, rfl⟩
    · cases h
      rcases ih rfl with ⟨hbehind, hbefore⟩ | ⟨x, last, hbehind, hx, hbefore⟩
      · exact .inl ⟨hbehind, congrArg (c :: ·) hbefore⟩
      · exact .inr ⟨x, last, hbehind, hx, congrArg (c :: ·) hbefore⟩

end DequeMachine.Text

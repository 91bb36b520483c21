/-
  DequeMachine/Proofs/Json/Values.lean
  ====================================
  **Lists of values as JSON.**

  The text of a list of values is a flat array, and each element is a name or a number:
  both layouts of numbers keep to the grammar (`IsPlain.isNumber`, `IsScientific.isNumber`).
  `Value.Shows` says what an element tells about its value, without regard to how it is
  written: a number tells the value to which it is nearest.  Whichever way the text is read,
  the elements are names and numbers that tell the values (`shows_of_isAtom`), since two
  numbers with the same characters have the same worth.

  What an element tells is the value as far as JSON can say it (`reduced`), so two lists
  with one text are the same up to that (`jsonList_faithful`).
-/
import DequeMachine.Proofs.Json.Grammar
import DequeMachine.Proofs.Number.Written

namespace DequeMachine

open Literal

/-! ### Numbers in JSON -/

namespace Literal.Spelling

theorem EndsInDigit.fraction_ne_nil {s : Spelling} (h : s.EndsInDigit) :
    ∀ f, s.fraction = some f → f.chars ≠ [] := by
  intro f hf hnil
  obtain ⟨c, hc, -⟩ := h f hf
  rw [hnil] at hc
  cases hc

theorem IsPlain.isNumber {s : Spelling} (h : s.IsPlain) (hsign : s.sign ≠ .plus) : s.IsNumber :=
  ⟨hsign, h.whole_ne_nil, h.whole_eq, h.endsInDigit.fraction_ne_nil⟩

theorem IsScientific.isNumber {s : Spelling} (h : s.IsScientific) (hsign : s.sign ≠ .plus) :
    s.IsNumber := by
  obtain ⟨c, hwhole, hzero⟩ := h.whole_eq
  refine ⟨hsign, ?_, ?_, h.endsInDigit.fraction_ne_nil⟩
  · rw [hwhole]
    exact List.cons_ne_nil c []
  · rw [hwhole]
    intro hhead
    exact absurd (Option.some.inj hhead) hzero

/-- The characters tell the sign and the worth. -/
theorem worth_eq_of_chars {s s' : Spelling} (h : s.chars = s'.chars) :
    s.sign.isNegative = s'.sign.isNegative ∧ s.worth = s'.worth := by
  have hcut := congrArg cutSign h
  rw [cutSign_spelling, cutSign_spelling, Prod.mk.injEq] at hcut
  refine ⟨hcut.1, ?_⟩
  have hread := readDecimal_unsigned s
  rw [hcut.2] at hread
  rw [worth_eq_of_readDecimal hread, worth_decimal]

theorem chars_ne (s : Spelling) {cs : List Char} (h : readDecimal (cutSign cs).2 = none) :
    s.chars ≠ cs := by
  rintro rfl
  rw [cutSign_spelling, readDecimal_unsigned] at h
  cases h

theorem worth_eq_zero {s : Spelling} (h : s.chars = ['0']) : s.worth = 0 := by
  have hcut := cutSign_spelling s
  rw [h] at hcut
  have hread : readDecimal s.unsigned = some ⟨0, 0⟩ := (Prod.mk.inj hcut).2 ▸ rfl
  rw [worth_eq_of_readDecimal hread]
  simp [Decimal.worth]

end Literal.Spelling

namespace Json

/-- The characters of a name tell which it is, and no number has them. -/
def nameOf? (cs : List Char) : Option Json :=
  if cs = "null".toList then some .null
  else if cs = "true".toList then some (.truth true)
  else if cs = "false".toList then some (.truth false)
  else none

theorem IsAtom.name_or_number {cs : List Char} {tree : Json} (h : IsAtom cs tree) :
    nameOf? cs = some tree ∨
      nameOf? cs = none ∧ ∃ s : Spelling, s.chars = cs ∧ tree = .number s := by
  cases h with
  | null => exact .inl rfl
  | yes => exact .inl rfl
  | no => exact .inl rfl
  | @number s _ =>
    have hnull : s.chars ≠ "null".toList := s.chars_ne rfl
    have hyes : s.chars ≠ "true".toList := s.chars_ne rfl
    have hno : s.chars ≠ "false".toList := s.chars_ne rfl
    refine .inr ⟨?_, s, rfl, rfl⟩
    rw [nameOf?, if_neg hnull, if_neg hyes, if_neg hno]

end Json

namespace Value

open Json

/-! ### What an element shows -/

/-- What an element of an array shows about a value: which truth value it is, that it is not
    a finite number, that it is a zero, or the number itself. -/
inductive Shows : Value → Json → Prop
  | truth (b : Bool) : Shows (.truth b) (.truth b)
  | nan : Shows (.number .nan) .null
  | infinity (negative : Bool) : Shows (.number (.signed negative .infinity)) .null
  | zero (negative : Bool) {s : Spelling} : s.chars = ['0'] →
      Shows (.number (.signed negative .zero)) (.number s)
  | number {m : Magnitude} {s : Spelling} : m ≠ .infinity → m ≠ .zero → m.IsNearest s.worth →
      Shows (.number (.signed s.sign.isNegative m)) (.number s)

/-- A value as far as JSON can say it. -/
def reduced : Value → Value
  | .number (.signed negative m) =>
    if m = .infinity then .number .nan
    else if m = .zero then .number .zero
    else .number (.signed negative m)
  | v => v

theorem reduced_infinity (negative : Bool) :
    (number (.signed negative .infinity)).reduced = .number .nan :=
  rfl

theorem reduced_zero (negative : Bool) :
    (number (.signed negative .zero)).reduced = .number .zero :=
  rfl

theorem reduced_of_ne (negative : Bool) {m : Magnitude} (hinfinity : m ≠ .infinity)
    (hzero : m ≠ .zero) :
    (number (.signed negative m)).reduced = number (.signed negative m) := by
  rw [reduced, if_neg hinfinity, if_neg hzero]

/-- What cannot be said is not written. -/
theorem json_reduced (v : Value) : v.reduced.json = v.json := by
  cases v with
  | truth b => rfl
  | number x =>
    cases x with
    | nan => rfl
    | signed negative m =>
      by_cases hinfinity : m = .infinity
      · subst hinfinity
        rw [reduced_infinity]
        rfl
      · by_cases hzero : m = .zero
        · subst hzero
          rw [reduced_zero]
          rfl
        · rw [reduced_of_ne negative hinfinity hzero]

theorem Shows.of_chars_eq {v : Value} {s s' : Spelling} (h : Shows v (.number s))
    (hchars : s.chars = s'.chars) : Shows v (.number s') := by
  obtain ⟨hsign, hworth⟩ := Spelling.worth_eq_of_chars hchars
  cases h with
  | zero negative hzero => exact .zero negative (hchars ▸ hzero)
  | number hfinite hzero hnearest =>
    rw [hworth] at hnearest
    rw [hsign]
    exact .number hfinite hzero hnearest

/-- A number shows the magnitude that it is nearest to. -/
theorem Shows.exists_reduced_eq {v : Value} {s : Spelling} (h : Shows v (.number s)) :
    ∃ m : Magnitude, m.IsNearest s.worth ∧
      v.reduced = (Value.number (.signed s.sign.isNegative m)).reduced := by
  cases h with
  | zero negative hzero =>
    refine ⟨.zero, ?_, ?_⟩
    · rw [Spelling.worth_eq_zero hzero]
      exact Magnitude.isNearest_zero (by positivity)
    · rw [reduced_zero, reduced_zero]
  | @number m _ _ _ hnearest => exact ⟨m, hnearest, rfl⟩

/-- **An element shows a value as far as JSON can say it.** -/
theorem Shows.reduced_eq {v w : Value} {tree : Json} (hv : Shows v tree) (hw : Shows w tree) :
    v.reduced = w.reduced := by
  have hnull : ∀ {v : Value}, Shows v .null → v.reduced = Value.number .nan := by
    intro v h
    cases h with
    | nan => rfl
    | infinity negative => exact reduced_infinity negative
  cases tree with
  | null => rw [hnull hv, hnull hw]
  | truth b =>
    cases hv
    cases hw
    rfl
  | number s =>
    obtain ⟨m, hm, hv⟩ := hv.exists_reduced_eq
    obtain ⟨m', hm', hw⟩ := hw.exists_reduced_eq
    rw [hv, hw, hm.unique hm']
  | string body => cases hv
  | array elements => cases hv
  | object members => cases hv

theorem map_reduced_eq {vs ws : List Value} {elements : List Json}
    (hvs : List.Forall₂ Shows vs elements) (hws : List.Forall₂ Shows ws elements) :
    vs.map reduced = ws.map reduced := by
  induction hvs generalizing ws with
  | nil =>
    cases hws
    rfl
  | cons hv _ ih =>
    cases hws with
    | cons hw hws => rw [List.map_cons, List.map_cons, hv.reduced_eq hw, ih hws]

/-! ### Elements -/

/-- **The text of a finite number is a number of JSON** that shows it. -/
theorem exists_isNumber_chars (negative : Bool) {m : Magnitude} (hfinite : m.isFinite = true)
    (hzero : m.isZero = false) :
    ∃ s : Spelling, s.IsNumber ∧ s.chars = (Number.signed negative m).chars ∧
      s.sign.isNegative = negative ∧ m.IsNearest s.worth := by
  obtain ⟨s, hsign, hchars, hworth, -, hplain, hscientific⟩ :=
    m.exists_spelling_chars hfinite hzero (if negative then .minus else .none)
  have hnumber : s.IsNumber := by
    have hplus : s.sign ≠ .plus := by
      rw [hsign]
      cases negative <;> decide
    by_cases hmoderate : m.IsModerate
    · exact (hplain hmoderate).isNumber hplus
    · exact (hscientific hmoderate).isNumber hplus
  have hnearest : m.IsNearest s.worth := by
    rw [hworth]
    exact Decimal.toMagnitude_eq_iff.mp m.toMagnitude_shortest
  refine ⟨s, hnumber, ?_, ?_, hnearest⟩
  · rw [Spelling.chars, hsign, hchars]
    cases negative <;> rfl
  · rw [hsign]
    cases negative <;> rfl

theorem exists_isAtom (v : Value) : ∃ tree, IsAtom v.json.toList tree ∧ Shows v tree := by
  cases v with
  | truth b =>
    cases b with
    | false => exact ⟨_, .no, .truth false⟩
    | true => exact ⟨_, .yes, .truth true⟩
  | number x =>
    cases x with
    | nan => exact ⟨_, .null, .nan⟩
    | signed negative m =>
      by_cases hinfinity : m = .infinity
      · subst hinfinity
        exact ⟨_, .null, .infinity negative⟩
      · by_cases hzero : m = .zero
        · subst hzero
          let whole : Digits := ⟨['0'], List.forall_mem_singleton.mpr rfl⟩
          let s : Spelling := ⟨.none, whole, none, none, by decide⟩
          have hnumber : s.IsNumber := ⟨by decide, by decide, fun _ => rfl, nofun⟩
          have htext : (number (.signed negative .zero)).json.toList = s.chars := by
            rw [← json_reduced, reduced_zero]
            decide
          rw [htext]
          exact ⟨_, .number hnumber, .zero negative rfl⟩
        · have hisFinite : m.isFinite = true := by
            rwa [← Bool.not_eq_false, Magnitude.isFinite_eq_false_iff]
          have hisZero : m.isZero = false := by
            rwa [← Bool.not_eq_true, Magnitude.isZero_iff_eq_zero]
          obtain ⟨s, hnumber, hchars, rfl, hnearest⟩ :=
            exists_isNumber_chars negative hisFinite hisZero
          have htext : (number (.signed s.sign.isNegative m)).json.toList = s.chars := by
            simp [json, Number.isFinite, Number.isZero, hisFinite, hisZero, Number.text, hchars]
          rw [htext]
          exact ⟨_, .number hnumber, .number hinfinity hzero hnearest⟩

theorem shows_of_isAtom {v : Value} {tree : Json} (h : IsAtom v.json.toList tree) :
    Shows v tree := by
  obtain ⟨other, hother, hshows⟩ := exists_isAtom v
  rcases hother.name_or_number with hname | ⟨hnone, s, hchars, rfl⟩
  · rcases h.name_or_number with hname' | ⟨hnone, -⟩
    · rw [hname, Option.some.injEq] at hname'
      exact hname' ▸ hshows
    · rw [hname] at hnone
      cases hnone
  · rcases h.name_or_number with hname | ⟨-, s', hchars', rfl⟩
    · rw [hname] at hnone
      cases hnone
    · exact hshows.of_chars_eq (hchars.trans hchars'.symm)

/-! ### Lists -/

theorem toList_jsonList (values : List Value) :
    (jsonList values).toList = flat (values.map fun v => v.json.toList) := by
  simp [jsonList, flat, String.toList_intercalate, Function.comp_def]

/-- However the text of a list is read, there is an element for each value that shows it. -/
theorem isText_jsonList_iff {values : List Value} {tree : Json} :
    IsText (jsonList values).toList tree ↔ ∃ elements, tree = .array elements ∧
      List.Forall₂ (fun v => IsAtom v.json.toList) values elements := by
  have hparts : ∀ part ∈ values.map fun v => v.json.toList, ∃ tree, IsAtom part tree := by
    intro part hpart
    obtain ⟨v, -, rfl⟩ := List.mem_map.mp hpart
    obtain ⟨tree, htree, -⟩ := exists_isAtom v
    exact ⟨tree, htree⟩
  simp only [toList_jsonList, isText_flat_iff hparts, List.forall₂_map_left_iff]

/-- **A list of values in JSON loses only what JSON cannot say.**  The text of a list is an
    array by the grammar.  However it is read, it is an array, with one element for each
    value: the truth value, null for what is not a number and for the infinities, `0` for the
    zeros, and for any other number one that it is nearest to.  Two lists have the same text
    exactly if they are the same value by value, up to what is not finite and the sign of
    zero. -/
theorem jsonList_faithful (values : List Value) :
    (∃ elements, IsText (jsonList values).toList (.array elements)) ∧
    (∀ tree, IsText (jsonList values).toList tree →
      ∃ elements, tree = .array elements ∧ List.Forall₂ Shows values elements) ∧
    ∀ others, jsonList values = jsonList others ↔ values.map reduced = others.map reduced := by
  have hread : ∀ values tree, IsText (jsonList values).toList tree →
      ∃ elements, tree = .array elements ∧ List.Forall₂ Shows values elements := by
    intro values tree h
    obtain ⟨elements, rfl, hatoms⟩ := isText_jsonList_iff.mp h
    exact ⟨elements, rfl, hatoms.imp fun _ _ => shows_of_isAtom⟩
  have harray : ∃ elements, IsText (jsonList values).toList (.array elements) := by
    choose element hatom _ using exists_isAtom
    have hatoms : List.Forall₂ (fun v w => IsAtom v.json.toList (element w)) values values :=
      List.forall₂_same.mpr fun v _ => hatom v
    exact ⟨values.map element,
      isText_jsonList_iff.mpr ⟨_, rfl, List.forall₂_map_right_iff.mpr hatoms⟩⟩
  refine ⟨harray, hread values, ?_⟩
  intro others
  constructor
  · intro h
    obtain ⟨elements, harray⟩ := harray
    obtain ⟨_, ⟨⟩, hvalues⟩ := hread values _ harray
    obtain ⟨_, ⟨⟩, hothers⟩ := hread others _ (h ▸ harray)
    exact map_reduced_eq hvalues hothers
  · intro h
    have hreduced : ∀ values, jsonList (values.map reduced) = jsonList values := by
      intro values
      simp only [jsonList, List.map_map, Function.comp_def, json_reduced]
    rw [← hreduced values, h, hreduced]

/-- What is not a number and the negative zero lose what makes them different from infinity
    and zero; the smallest number stays, although its only digit is far from it. -/
theorem jsonList_faithful_mixed :
    let values := [number .nan, .number (.signed true .zero), .truth false,
      .number (.signed true ⟨1, by decide⟩)]
    jsonList values = "[null,0,false,-5e-324]" ∧
    (∃ elements, IsText "[null,0,false,-5e-324]".toList (.array elements) ∧
      List.Forall₂ Shows values elements) ∧
    jsonList values = jsonList [number .infinity, .number .zero, .truth false,
      .number (.signed true ⟨1, by decide⟩)] := by
  intro values
  have htext : jsonList values = "[null,0,false,-5e-324]" := by decide +kernel
  refine ⟨htext, ?_, (jsonList_faithful values).2.2 _ |>.mpr (by decide)⟩
  obtain ⟨elements, harray⟩ := (jsonList_faithful values).1
  obtain ⟨_, ⟨⟩, hshows⟩ := (jsonList_faithful values).2.1 _ harray
  rw [htext] at harray
  exact ⟨elements, harray, hshows⟩

end Value

end DequeMachine

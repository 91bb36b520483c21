/-
  DequeMachine/Proofs/Command/Options.lean
  ========================================
  **Options in any order.**

  Arguments fall into items from the left (`Item.Reads`), and from there on it is the items
  that count and not the arguments.  The items are taken one by one.  What has been taken so
  far is told by the draft (`Draft.Describes`): which flags there were, the path, and the last
  limit.  So whether an item can be taken depends on the items before it, and only a second
  path minds what they are (`Item.Bad`).

  A list of items is taken as a whole if it is acceptable, and the options can then be told
  from it without regard to its order, apart from that of the limits
  (`Options.ofItems_eq_ok_iff`).  If it is not, the first bad item is what is reported, and a
  missing path only if there is no such item (`Options.ofItems_eq_error_iff`).
-/
import Mathlib.Data.List.Induction
import DequeMachine.Command.Basic
import DequeMachine.Proofs.Number.Literal

namespace DequeMachine.Command

/-! ### Items from the left -/

/-- Arguments read from the left, item by item. -/
inductive Item.Reads : List String → List Item → Prop where
  | nil : Reads [] []
  | trace {rest : List String} {items : List Item} (hrest : Reads rest items) :
      Reads ("--trace" :: rest) (.trace :: items)
  | symmetric {rest : List String} {items : List Item} (hrest : Reads rest items) :
      Reads ("--symmetric" :: rest) (.symmetric :: items)
  | maxSteps (value : String) {rest : List String} {items : List Item} (hrest : Reads rest items) :
      Reads ("--max-steps" :: value :: rest) (.maxSteps (some value) :: items)
  | missing : Reads ["--max-steps"] [.maxSteps none]
  | unknown {argument : String} (hdashes : ∃ name, argument = "--" ++ name)
      (hnew : argument ∉ ["--trace", "--symmetric", "--max-steps"])
      {rest : List String} {items : List Item} (hrest : Reads rest items) :
      Reads (argument :: rest) (.unknown argument :: items)
  | path {argument : String} (hdashes : ¬∃ name, argument = "--" ++ name)
      {rest : List String} {items : List Item} (hrest : Reads rest items) :
      Reads (argument :: rest) (.path argument :: items)

theorem take_two_eq_iff {argument : String} :
    argument.toList.take 2 = ['-', '-'] ↔ ∃ name, argument = "--" ++ name := by
  have hdashes : "--".toList = ['-', '-'] := rfl
  constructor
  · intro h
    refine ⟨String.ofList (argument.toList.drop 2), String.toList_inj.mp ?_⟩
    rw [String.toList_append, hdashes, ← h, String.toList_ofList, List.take_append_drop]
  · rintro ⟨name, rfl⟩
    rw [String.toList_append, hdashes]
    rfl

theorem Item.reads_ofArguments (arguments : List String) :
    Reads arguments (ofArguments arguments) := by
  fun_induction ofArguments arguments with
  | case1 => exact .nil
  | case2 rest ih => exact .trace ih
  | case3 rest hne ih => exact .symmetric ih
  | case4 => exact .missing
  | case5 value rest _ _ ih => exact .maxSteps value ih
  | case6 argument rest htrace hsymmetric hsteps ih =>
    unfold other
    split
    · rename_i hdashes
      refine .unknown (take_two_eq_iff.mp hdashes) ?_ ih
      simp [htrace, hsymmetric, hsteps]
    · rename_i hdashes
      exact .path (mt take_two_eq_iff.mpr hdashes) ih

/-- **There is one way to read arguments from the left.** -/
theorem Item.reads_iff {arguments : List String} {items : List Item} :
    Reads arguments items ↔ ofArguments arguments = items := by
  constructor
  · intro h
    induction h with
    | nil => rfl
    | trace _ ih =>
      rw [ofArguments.eq_def]
      simp [ih]
    | symmetric _ ih =>
      rw [ofArguments.eq_def]
      simp [ih]
    | maxSteps value _ ih => simp [ofArguments, ih]
    | missing => simp [ofArguments]
    | @unknown argument hdashes hnew rest _ _ ih =>
      have hother : other argument = .unknown argument := if_pos (take_two_eq_iff.mpr hdashes)
      simp only [List.mem_cons, List.not_mem_nil, or_false, not_or] at hnew
      rw [ofArguments.eq_def]
      simp [hnew, hother, ih]
    | @path argument hdashes rest _ _ ih =>
      have hother : other argument = .path argument := if_neg (mt take_two_eq_iff.mp hdashes)
      have htrace : argument ≠ "--trace" := fun h => hdashes ⟨"trace", h⟩
      have hsymmetric : argument ≠ "--symmetric" := fun h => hdashes ⟨"symmetric", h⟩
      have hsteps : argument ≠ "--max-steps" := fun h => hdashes ⟨"max-steps", h⟩
      rw [ofArguments.eq_def]
      simp [htrace, hsymmetric, hsteps, hother, ih]
  · rintro rfl
    exact reads_ofArguments arguments

/-! ### Limits -/

/-- A value spells a limit: digits, perhaps behind a plus sign, for a number that is not too
    large. -/
def SpellsLimit (value : String) (n : Nat) : Prop :=
  ∃ digits : Literal.Digits, digits.chars ≠ [] ∧
    (value.toList = digits.chars ∨ value.toList = '+' :: digits.chars) ∧
    digits.value = n ∧ n < 2 ^ 64

theorem limitDigits_eq_iff {value : String} {digits : Literal.Digits} (hne : digits.chars ≠ []) :
    limitDigits value = digits.chars ↔
      value.toList = digits.chars ∨ value.toList = '+' :: digits.chars := by
  have hplus : ∀ rest, digits.chars ≠ '+' :: rest := by
    intro rest h
    have hdigit := digits.isDigit '+' (by simp [h])
    cases hdigit
  unfold limitDigits
  cases value.toList with
  | nil => simp [Text.dropLeading, hne.symm]
  | cons c rest =>
    by_cases hc : c = '+'
    · subst hc
      simp [Text.dropLeading, (hplus rest).symm]
    · simp [Text.dropLeading, hc]

theorem limit?_eq_some_iff {value : String} {n : Nat} :
    limit? value = some n ↔ SpellsLimit value n := by
  have hbound : limitBound = 2 ^ 64 := rfl
  unfold limit? SpellsLimit
  simp only [Option.filter_eq_some_iff, Option.ite_none_left_eq_some, Bool.or_eq_true,
    List.isEmpty_iff, Bool.not_eq_true', not_or, Bool.not_eq_false, Literal.allDigits,
    List.all_eq_true, Option.some.injEq, decide_eq_true_eq, hbound]
  constructor
  · rintro ⟨⟨hne, hdigits⟩, hvalue, hlt⟩
    exact ⟨⟨limitDigits value, hdigits⟩, hne, (limitDigits_eq_iff hne).mp rfl, hvalue, hlt⟩
  · rintro ⟨digits, hne, hchars, hvalue, hlt⟩
    have hdigits := (limitDigits_eq_iff hne).mpr hchars
    rw [hdigits]
    exact ⟨⟨hne, digits.isDigit⟩, hvalue, hlt⟩

/-! ### Items that can be taken -/

namespace Item

def isFlag : Item → Bool
  | .trace | .symmetric => true
  | _ => false

def isLimit : Item → Bool
  | .maxSteps _ => true
  | _ => false

def path? : Item → Option String
  | .path argument => some argument
  | _ => none

def limitValue? : Item → Option String
  | .maxSteps value => value
  | _ => none

/-- An item cannot be taken behind some others, for a reason. -/
inductive Bad (before : List Item) : Item → OptionFault → Prop where
  | missingLimit : Bad before (.maxSteps none) .missingLimit
  | invalidLimit (value : String) (h : ∀ n, ¬SpellsLimit value n) :
      Bad before (.maxSteps (some value)) (.invalidLimit value)
  | unknownOption (argument : String) : Bad before (.unknown argument) (.unknownOption argument)
  | secondPath (first argument : String) (h : .path first ∈ before) :
      Bad before (.path argument) (.unexpectedArgument argument)

theorem Bad.unique {before : List Item} {item : Item} {fault fault' : OptionFault}
    (h : item.Bad before fault) (h' : item.Bad before fault') : fault = fault' := by
  cases h <;> cases h' <;> rfl

/-- None of the items is bad behind those in front of it. -/
def Fine (items : List Item) : Prop :=
  ∀ before item after fault, items = before ++ item :: after → ¬item.Bad before fault

/-- The first bad item, and what is wrong with it. -/
def FirstBad (items : List Item) (fault : OptionFault) : Prop :=
  ∃ before item after, items = before ++ item :: after ∧ item.Bad before fault ∧ Fine before

theorem FirstBad.not_fine {items : List Item} {fault : OptionFault} (h : FirstBad items fault) :
    ¬Fine items := by
  obtain ⟨before, item, after, hitems, hbad, -⟩ := h
  intro hfine
  exact hfine before item after fault hitems hbad

theorem fine_nil : Fine [] := by
  intro before item after fault hitems
  simp at hitems

theorem Fine.concat {items : List Item} {item : Item} (h : Fine items)
    (hitem : ∀ fault, ¬item.Bad items fault) : Fine (items ++ [item]) := by
  intro before other after fault hitems hbad
  rcases List.eq_nil_or_concat after with rfl | ⟨front, last, rfl⟩
  · obtain ⟨rfl, hlast⟩ := List.append_inj' hitems rfl
    cases hlast
    exact hitem fault hbad
  · have hsnoc : items ++ [item] = (before ++ other :: front) ++ [last] := by simpa using hitems
    exact h before other front fault (List.append_inj' hsnoc rfl).1 hbad

/-- Items that ask for nothing unknown, each limit with a value that spells one. -/
structure Legible (items : List Item) : Prop where
  known : ∀ argument, .unknown argument ∉ items
  limits : ∀ value?, .maxSteps value? ∈ items → ∃ value n, value? = some value ∧ SpellsLimit value n

/-- Items that can be taken as a whole: they are legible, and there is one path. -/
structure Acceptable (items : List Item) : Prop extends Legible items where
  path : ∃ path, items.filterMap path? = [path]

theorem Acceptable.not_firstBad {items : List Item} (h : Acceptable items) (fault : OptionFault) :
    ¬FirstBad items fault := by
  rintro ⟨before, item, after, rfl, hbad, -⟩
  cases hbad with
  | missingLimit =>
    obtain ⟨value, n, hvalue, -⟩ := h.limits none (by simp)
    cases hvalue
  | invalidLimit value hspells =>
    obtain ⟨_, n, hvalue, hlimit⟩ := h.limits (some value) (by simp)
    cases hvalue
    exact hspells n hlimit
  | unknownOption argument => exact h.known argument (by simp)
  | secondPath first argument hfirst =>
    obtain ⟨path, hpath⟩ := h.path
    have hmem : first ∈ before.filterMap path? := List.mem_filterMap.mpr ⟨_, hfirst, rfl⟩
    obtain ⟨front, back, hsplit⟩ := List.append_of_mem hmem
    have hlength := congrArg List.length hpath
    simp [hsplit, Item.path?] at hlength
    omega

end Item

/-! ### What the items say -/

/-- The settings that items ask for, in whatever order: a flag is set if it occurs, and the
    last limit counts. -/
structure Item.Configure (items : List Item) (c : Config) : Prop where
  trace : c.trace = true ↔ .trace ∈ items
  rule : c.rule = .labelOnly ↔ .symmetric ∈ items
  maxSteps : ∀ n, c.maxSteps = some n ↔
    ∃ value, (items.filterMap limitValue?).getLast? = some value ∧ SpellsLimit value n

theorem Item.Configure.unique {items : List Item} {c c' : Config} (h : Configure items c)
    (h' : Configure items c') : c = c' := by
  obtain ⟨rule, trace, maxSteps⟩ := c
  obtain ⟨rule', trace', maxSteps'⟩ := c'
  have htrace : trace = trace' := Bool.eq_iff_iff.mpr (h.trace.trans h'.trace.symm)
  have hmaxSteps : maxSteps = maxSteps' :=
    Option.ext fun n => (h.maxSteps n).trans (h'.maxSteps n).symm
  have hrule : rule = rule' := by
    have hiff := h.rule.trans h'.rule.symm
    cases rule <;> cases rule' <;> simp_all
  rw [htrace, hmaxSteps, hrule]

/-- The options that items say: the one path, and the settings. -/
structure Options.Reflects (o : Options) (items : List Item) : Prop where
  path : items.filterMap Item.path? = [o.path]
  config : Item.Configure items o.config

/-- A draft tells what has been taken so far. -/
structure Draft.Describes (d : Draft) (items : List Item) : Prop where
  legible : Item.Legible items
  path : items.filterMap Item.path? = d.path.toList
  config : Item.Configure items d.config

namespace Draft

theorem describes_nil : ({} : Draft).Describes [] :=
  ⟨⟨by simp, by simp⟩, rfl, by simp, by simp, by simp⟩

/-- **An item is taken, or it is bad.** -/
theorem Describes.add_cases {d : Draft} {items : List Item} (h : d.Describes items) (item : Item) :
    (∃ d', d.add item = .ok d' ∧ d'.Describes (items ++ [item]) ∧
      ∀ fault, ¬item.Bad items fault) ∨
    ∃ fault, d.add item = .error fault ∧ item.Bad items fault := by
  obtain ⟨⟨hknown, hlimits⟩, hpath, htrace, hrule, hmaxSteps⟩ := h
  cases item with
  | trace =>
    refine .inl ⟨_, rfl, ⟨⟨?_, ?_⟩, ?_, ?_, ?_, ?_⟩, nofun⟩ <;>
      simp_all [Item.path?, Item.limitValue?]
  | symmetric =>
    refine .inl ⟨_, rfl, ⟨⟨?_, ?_⟩, ?_, ?_, ?_, ?_⟩, nofun⟩ <;>
      simp_all [Item.path?, Item.limitValue?]
  | maxSteps value? =>
    cases value? with
    | none => exact .inr ⟨_, rfl, .missingLimit⟩
    | some value =>
      cases hlimit : limit? value with
      | none =>
        refine .inr ⟨.invalidLimit value, by simp [add, hlimit], .invalidLimit value ?_⟩
        intro n hspells
        rw [limit?_eq_some_iff.mpr hspells] at hlimit
        cases hlimit
      | some limit =>
        have hspells := limit?_eq_some_iff.mp hlimit
        refine .inl ⟨{ d with config := { d.config with maxSteps := some limit } },
          by simp [add, hlimit], ⟨⟨?_, ?_⟩, ?_, ?_, ?_, ?_⟩, ?_⟩
        · simpa using hknown
        · simp only [List.mem_append, List.mem_singleton, Item.maxSteps.injEq]
          rintro value? (hmem | rfl)
          · exact hlimits value? hmem
          · exact ⟨value, limit, rfl, hspells⟩
        · simpa [List.filterMap_cons, Item.path?] using hpath
        · simpa using htrace
        · simpa using hrule
        · intro n
          simp [Item.limitValue?, ← limit?_eq_some_iff, hlimit]
        · intro fault hbad
          cases hbad with
          | invalidLimit _ hnone => exact hnone limit hspells
  | unknown argument => exact .inr ⟨_, rfl, .unknownOption argument⟩
  | path argument =>
    cases hfirst : d.path with
    | some first =>
      refine .inr ⟨.unexpectedArgument argument, by simp [add, hfirst],
        .secondPath first argument ?_⟩
      have hmem : first ∈ items.filterMap Item.path? := by simp [hpath, hfirst]
      obtain ⟨other, hother, hsome⟩ := List.mem_filterMap.mp hmem
      cases other <;> cases hsome
      exact hother
    | none =>
      rw [hfirst, Option.toList_none] at hpath
      refine .inl ⟨{ d with path := some argument }, by simp [add, hfirst],
        ⟨⟨?_, ?_⟩, ?_, ?_, ?_, ?_⟩, ?_⟩
      · simpa using hknown
      · simpa using hlimits
      · simp [hpath, Item.path?]
      · simpa using htrace
      · simpa using hrule
      · simpa [Item.limitValue?] using hmaxSteps
      · intro fault hbad
        cases hbad with
        | secondPath first _ hmem =>
          have hnot : first ∉ items.filterMap Item.path? := by simp [hpath]
          exact hnot (List.mem_filterMap.mpr ⟨_, hmem, rfl⟩)

theorem addAll_append (d : Draft) (items others : List Item) :
    d.addAll (items ++ others) =
      match d.addAll items with
      | .ok d => d.addAll others
      | .error fault => .error fault := by
  induction items generalizing d with
  | nil => rfl
  | cons item rest ih =>
    rw [List.cons_append, addAll, addAll]
    cases d.add item with
    | ok d' => exact ih d'
    | error fault => rfl

/-- **All items are taken, or the first bad one is reported.** -/
theorem addAll_cases (items : List Item) :
    (∃ d, addAll {} items = .ok d ∧ d.Describes items ∧ Item.Fine items) ∨
    ∃ fault, addAll {} items = .error fault ∧ Item.FirstBad items fault := by
  induction items using List.reverseRecOn with
  | nil => exact .inl ⟨{}, rfl, describes_nil, Item.fine_nil⟩
  | append_singleton items item ih =>
    rcases ih with ⟨d, hd, hdescribes, hfine⟩ | ⟨fault, hfault, hfirst⟩
    · rcases hdescribes.add_cases item with ⟨d', hadd, hdescribes', hnone⟩ | ⟨fault, hadd, hbad⟩
      · refine .inl ⟨d', ?_, hdescribes', hfine.concat hnone⟩
        simp [addAll_append, hd, addAll, hadd]
      · refine .inr ⟨fault, ?_, items, item, [], rfl, hbad, hfine⟩
        simp [addAll_append, hd, addAll, hadd]
    · obtain ⟨before, other, after, rfl, hbad, hbefore⟩ := hfirst
      refine .inr ⟨fault, ?_, before, other, after ++ [item], by simp, hbad, hbefore⟩
      rw [addAll_append, hfault]

theorem addAll_of_firstBad {items : List Item} {fault : OptionFault}
    (h : Item.FirstBad items fault) : addAll {} items = .error fault := by
  obtain ⟨before, item, after, rfl, hbad, hfine⟩ := h
  rcases addAll_cases before with ⟨d, hd, hdescribes, -⟩ | ⟨_, -, hfirst⟩
  · rcases hdescribes.add_cases item with ⟨_, -, -, hnone⟩ | ⟨fault', hadd, hbad'⟩
    · exact absurd hbad (hnone fault)
    · simp [addAll_append, hd, addAll, hadd, hbad'.unique hbad]
  · exact absurd hfine hfirst.not_fine

end Draft

namespace Options

theorem ofItems_eq_ok_iff {items : List Item} {o : Options} :
    ofItems items = .ok o ↔ Item.Acceptable items ∧ o.Reflects items := by
  rcases Draft.addAll_cases items with ⟨d, hd, hdescribes, -⟩ | ⟨fault, hfault, hfirst⟩
  · obtain ⟨hlegible, hpath, hconfig⟩ := hdescribes
    cases hsome : d.path with
    | none =>
      simp only [ofItems, hd, Draft.finish, hsome, reduceCtorEq, false_iff, not_and]
      rintro ⟨-, path, hone⟩
      simp [hone, hsome] at hpath
    | some path =>
      rw [hsome, Option.toList_some] at hpath
      simp only [ofItems, hd, Draft.finish, hsome, Except.ok.injEq]
      constructor
      · rintro rfl
        exact ⟨⟨hlegible, path, hpath⟩, hpath, hconfig⟩
      · rintro ⟨-, hpath', hconfig'⟩
        obtain ⟨path', config'⟩ := o
        have hsame : path = path' := by simpa [hpath] using hpath'
        rw [hsame, hconfig.unique hconfig']
  · simp only [ofItems, hfault, reduceCtorEq, false_iff, not_and]
    intro hacceptable
    exact absurd hfirst (hacceptable.not_firstBad fault)

theorem ofItems_eq_error_iff {items : List Item} {fault : OptionFault} :
    ofItems items = .error fault ↔ Item.FirstBad items fault ∨
      Item.Fine items ∧ items.filterMap Item.path? = [] ∧ fault = .missingPath := by
  rcases Draft.addAll_cases items with ⟨d, hd, hdescribes, hfine⟩ | ⟨fault', hfault, hfirst⟩
  · have hnone : ¬Item.FirstBad items fault := fun h => h.not_fine hfine
    rw [hdescribes.path]
    cases hpath : d.path with
    | none => simp [ofItems, hd, Draft.finish, hpath, hnone, hfine, eq_comm]
    | some path => simp [ofItems, hd, Draft.finish, hpath, hnone]
  · simp only [ofItems, hfault, Except.error.injEq, hfirst.not_fine, false_and, or_false]
    constructor
    · rintro rfl
      exact hfirst
    · intro h
      have hagain := Draft.addAll_of_firstBad h
      rw [hfault, Except.error.injEq] at hagain
      exact hagain

end Options

/-! ### Another order -/

namespace Item

/-- Items in another order that leaves the limits in theirs, and flags once more or once less
    where they occur anyway. -/
inductive Rearranged : List Item → List Item → Prop where
  | reorder {items items' : List Item} (hperm : items.Perm items')
      (hlimits : items.filter isLimit = items'.filter isLimit) : Rearranged items items'
  | again (before after : List Item) (flag : Item) (hflag : flag.isFlag = true)
      (hmem : flag ∈ before ++ after) : Rearranged (before ++ after) (before ++ flag :: after)
  | symm {items items' : List Item} (h : Rearranged items items') : Rearranged items' items
  | trans {items items' items'' : List Item} (h : Rearranged items items')
      (h' : Rearranged items' items'') : Rearranged items items''

/-- What items have in common that say the same. -/
structure Alike (items items' : List Item) : Prop where
  mem : ∀ item, item ∈ items ↔ item ∈ items'
  paths : (items.filterMap path?).Perm (items'.filterMap path?)
  values : items.filterMap limitValue? = items'.filterMap limitValue?

theorem filterMap_limitValue? (items : List Item) :
    (items.filter isLimit).filterMap limitValue? = items.filterMap limitValue? := by
  rw [List.filterMap_filter]
  congr 1
  funext item
  cases item <;> rfl

theorem Rearranged.alike {items items' : List Item} (h : Rearranged items items') :
    Alike items items' := by
  induction h with
  | reorder hperm hlimits =>
    refine ⟨fun item => hperm.mem_iff, hperm.filterMap path?, ?_⟩
    rw [← filterMap_limitValue?, hlimits, filterMap_limitValue?]
  | again before after flag hflag hmem =>
    have hpath : flag.path? = none := by cases flag <;> cases hflag <;> rfl
    have hvalue : flag.limitValue? = none := by cases flag <;> cases hflag <;> rfl
    refine ⟨?_, ?_, ?_⟩
    · intro item
      simp only [List.mem_append, List.mem_cons] at hmem ⊢
      constructor
      · rintro (h | h)
        · exact .inl h
        · exact .inr (.inr h)
      · rintro (h | rfl | h)
        · exact .inl h
        · exact hmem
        · exact .inr h
    · simp [hpath]
    · simp [hvalue]
  | symm _ ih => exact ⟨fun item => (ih.mem item).symm, ih.paths.symm, ih.values.symm⟩
  | trans _ _ ih ih' =>
    exact ⟨fun item => (ih.mem item).trans (ih'.mem item), ih.paths.trans ih'.paths,
      ih.values.trans ih'.values⟩

theorem Alike.acceptable {items items' : List Item} (h : Alike items items')
    (hitems : Acceptable items) : Acceptable items' := by
  obtain ⟨⟨hknown, hlimits⟩, path, hpath⟩ := hitems
  refine ⟨⟨fun argument => ?_, fun value? hmem => ?_⟩, path, ?_⟩
  · rw [← h.mem]
    exact hknown argument
  · exact hlimits value? ((h.mem _).mpr hmem)
  · exact List.perm_singleton.mp (hpath ▸ h.paths.symm)

theorem Alike.reflects {items items' : List Item} (h : Alike items items') {o : Options}
    (ho : o.Reflects items) : o.Reflects items' := by
  obtain ⟨hpath, htrace, hrule, hmaxSteps⟩ := ho
  refine ⟨List.perm_singleton.mp (hpath ▸ h.paths.symm), ?_, ?_, ?_⟩
  · rw [htrace, h.mem]
  · rw [hrule, h.mem]
  · rwa [← h.values]

end Item

theorem Options.ofItems_of_rearranged {items items' : List Item} (h : Item.Rearranged items items')
    (o : Options) : ofItems items = .ok o ↔ ofItems items' = .ok o := by
  have halike := h.alike
  have halike' := h.symm.alike
  rw [ofItems_eq_ok_iff, ofItems_eq_ok_iff]
  constructor
  · rintro ⟨hacceptable, hreflects⟩
    exact ⟨halike.acceptable hacceptable, halike.reflects hreflects⟩
  · rintro ⟨hacceptable, hreflects⟩
    exact ⟨halike'.acceptable hacceptable, halike'.reflects hreflects⟩

/-! ### Commands with options -/

theorem ofArguments_list_eq {arguments : List String} (hne : arguments ≠ []) :
    ofArguments ("tokens" :: arguments) = withOptions .list arguments := by
  simp [ofArguments, hne]

theorem ofArguments_run_eq {first : String} (htokens : first ≠ "tokens") (hhelp : first ≠ "help")
    (hdash : first.toList.head? ≠ some '-') (rest : List String) :
    ofArguments (first :: rest) = withOptions .run (first :: rest) := by
  have hlong : first ≠ "--help" := by
    rintro rfl
    exact hdash rfl
  have hshort : first ≠ "-h" := by
    rintro rfl
    exact hdash rfl
  simp [ofArguments, htokens, hlong, hshort, hhelp, hdash]

/-- A command whose options are at fault is not begun. -/
theorem answer?_of_fault {command : Options → Command} {line arguments : List String}
    (hline : ofArguments line = withOptions command arguments) {fault : OptionFault}
    (h : Options.ofArguments arguments = .error fault) (d : Directory) (fuel : Nat) :
    answer? d fuel line = some ⟨1, "", errorLine fault.message⟩ := by
  have hmisuse : ofArguments line = .error (.options fault) := by simp only [hline, withOptions, h]
  simp only [answer?, hmisuse]
  rfl

/-- **Options may come in any order.**  Arguments are read as items in one way only.  The items
    are taken if and only if nothing in them is unknown, each limit is spelt, and there is one
    path; and then the options are what the items say, which does not change if they are
    rearranged.  Otherwise the fault is that of the first bad item, or the missing path if there
    is no bad one, and that fault is all that either command shows, with exit code 1. -/
theorem Options.read_in_any_order (arguments : List String) :
    (∀ items, Item.Reads arguments items ↔ Item.ofArguments arguments = items) ∧
    ((∃ o, ofArguments arguments = .ok o) ↔ Item.Acceptable (Item.ofArguments arguments)) ∧
    (∀ o, ofArguments arguments = .ok o → o.Reflects (Item.ofArguments arguments)) ∧
    (∀ others, Item.Rearranged (Item.ofArguments arguments) (Item.ofArguments others) →
      ∀ o, ofArguments arguments = .ok o ↔ ofArguments others = .ok o) ∧
    (∀ fault, ofArguments arguments = .error fault ↔
      Item.FirstBad (Item.ofArguments arguments) fault ∨
      Item.Fine (Item.ofArguments arguments) ∧
        (∀ path, .path path ∉ Item.ofArguments arguments) ∧ fault = .missingPath) ∧
    ∀ fault, ofArguments arguments = .error fault → ∀ (d : Directory) (fuel : Nat),
      (arguments ≠ [] → answer? d fuel ("tokens" :: arguments) =
        some ⟨1, "", "error: " ++ fault.message ++ "\n"⟩) ∧
      ∀ first rest, arguments = first :: rest → first ≠ "tokens" → first ≠ "help" →
        first.toList.head? ≠ some '-' → answer? d fuel arguments =
          some ⟨1, "", "error: " ++ fault.message ++ "\n"⟩ := by
  have hok := @ofItems_eq_ok_iff (Item.ofArguments arguments)
  refine ⟨fun items => Item.reads_iff, ⟨?_, ?_⟩, fun o ho => (hok.mp ho).2,
    fun others h o => ofItems_of_rearranged h o, ?_, ?_⟩
  · rintro ⟨o, ho⟩
    exact (hok.mp ho).1
  · intro hacceptable
    cases h : ofArguments arguments with
    | ok o => exact ⟨o, rfl⟩
    | error fault =>
      rcases ofItems_eq_error_iff.mp h with hfirst | ⟨-, hnone, -⟩
      · exact absurd hfirst (hacceptable.not_firstBad fault)
      · obtain ⟨path, hpath⟩ := hacceptable.path
        simp [hpath] at hnone
  · intro fault
    have hnone : (Item.ofArguments arguments).filterMap Item.path? = [] ↔
        ∀ path, .path path ∉ Item.ofArguments arguments := by
      rw [List.filterMap_eq_nil_iff]
      constructor
      · intro h path hmem
        cases h _ hmem
      · intro h item hmem
        cases item with
        | path argument => exact absurd hmem (h argument)
        | _ => rfl
    rw [← hnone]
    exact ofItems_eq_error_iff
  · intro fault h d fuel
    constructor
    · intro hne
      exact answer?_of_fault (ofArguments_list_eq hne) h d fuel
    · rintro first rest rfl htokens hhelp hdash
      exact answer?_of_fault (ofArguments_run_eq htokens hhelp hdash rest) h d fuel

/-- A flag more and the path at the end make no difference.  The value of a limit is the next
    argument even if it looks like a flag, and behind a bad limit a second path is not
    reported. -/
theorem Options.read_in_any_order_mixed :
    (∃ o, ofArguments ["p", "--max-steps", "5", "--symmetric", "--max-steps", "+07"] = .ok o ∧
      ofArguments ["--symmetric", "--max-steps", "5", "--symmetric", "--max-steps", "+07", "p"] =
        .ok o ∧ o = ⟨"p", ⟨.labelOnly, false, some 7⟩⟩) ∧
    ofArguments ["p", "--max-steps", "--trace", "q"] = .error (.invalidLimit "--trace") ∧
    answer? ⟨[]⟩ 0 ["tokens", "p", "--max-steps", "--trace", "q"] =
      some ⟨1, "", "error: invalid step limit '--trace'\n"⟩ := by
  have hread : ofArguments ["p", "--max-steps", "5", "--symmetric", "--max-steps", "+07"] =
      .ok ⟨"p", ⟨.labelOnly, false, some 7⟩⟩ := by decide +kernel
  have hfault : ofArguments ["p", "--max-steps", "--trace", "q"] =
      .error (.invalidLimit "--trace") := by decide +kernel
  have hrearranged : Item.Rearranged
      (Item.ofArguments ["p", "--max-steps", "5", "--symmetric", "--max-steps", "+07"])
      (Item.ofArguments
        ["--symmetric", "--max-steps", "5", "--symmetric", "--max-steps", "+07", "p"]) :=
    .trans (.reorder (by decide +kernel) (by decide +kernel))
      (.again [.symmetric, .maxSteps (some "5")] [.maxSteps (some "+07"), .path "p"] .symmetric rfl
        (by decide))
  obtain ⟨-, -, -, hsame, -⟩ :=
    read_in_any_order ["p", "--max-steps", "5", "--symmetric", "--max-steps", "+07"]
  obtain ⟨-, -, -, -, -, hanswer⟩ := read_in_any_order ["p", "--max-steps", "--trace", "q"]
  refine ⟨⟨_, hread, (hsame _ hrearranged _).mp hread, rfl⟩, hfault, ?_⟩
  exact (hanswer _ hfault ⟨[]⟩ 0).1 (by simp)

end DequeMachine.Command

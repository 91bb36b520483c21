/-
  DequeMachine/Proofs/Labels.lean
  ===============================
  **The labels of a program, all of them or none.**

  The tokens of a program define names (`Labels.definitions`), and different tokens may
  define the same one.  Looking at the tokens one by one ends in one of two ways
  (`Labels.Scans`): with all that was defined, if no name came twice, or at the first token
  whose name was there before.  The two exclude each other, so that which of them it is says
  something about the program as a whole (`Labels.ofProgram_eq_ok_iff`,
  `Labels.ofProgram_eq_error_iff`), and a repeated name stops a run before anything has
  happened (`Labels.collected_or_refused`).

  Indices only grow on the way.  So the entries are in the order of their indices, and this
  is the one order that they can be sorted into.
-/
import Mathlib.Data.List.Nodup
import DequeMachine.Proofs.Run.Record

namespace DequeMachine

/-! ### Definitions in a program -/

namespace Program

/-- The token at an index defines a name. -/
def Defines (p : Program) (index : Nat) (name : String) : Prop :=
  ∃ token, p.get? index = some token ∧ Token.labelName? token = some name

/-- The token at an index defines a name that an earlier token has defined. -/
def Repeats (p : Program) (index : Nat) (name : String) : Prop :=
  p.Defines index name ∧ ∃ earlier < index, p.Defines earlier name

theorem Defines.unique {p : Program} {index : Nat} {name name' : String}
    (h : p.Defines index name) (h' : p.Defines index name') : name = name' := by
  obtain ⟨token, htoken, hname⟩ := h
  obtain ⟨token', htoken', hname'⟩ := h'
  rw [htoken, Option.some_inj] at htoken'
  rw [← htoken', hname, Option.some_inj] at hname'
  exact hname'

/-- No name is defined twice. -/
def DefinesOnce (p : Program) : Prop :=
  ∀ name i j, p.Defines i name → p.Defines j name → i = j

theorem Repeats.not_definesOnce {p : Program} {index : Nat} {name : String}
    (h : p.Repeats index name) : ¬ p.DefinesOnce := by
  obtain ⟨hdefines, earlier, hlt, hearlier⟩ := h
  intro honce
  exact Nat.ne_of_lt hlt (honce name earlier index hearlier hdefines)

/-- There is only one first repetition. -/
theorem Repeats.unique {p : Program} {index index' : Nat} {name name' : String}
    (h : p.Repeats index name) (h' : p.Repeats index' name')
    (hfirst : ∀ k < index, ∀ other, ¬ p.Repeats k other)
    (hfirst' : ∀ k < index', ∀ other, ¬ p.Repeats k other) : index = index' ∧ name = name' := by
  obtain hlt | rfl | hgt := Nat.lt_trichotomy index index'
  · exact absurd h (hfirst' index hlt name)
  · exact ⟨rfl, h.1.unique h'.1⟩
  · exact absurd h' (hfirst index' hgt name')

end Program

namespace Labels

/-- The names that tokens define, each with the index of its token. -/
def definitions (index : Nat) (tokens : List String) : List (String × Nat) :=
  (tokens.zipIdx index).filterMap fun (token, i) => (Token.labelName? token).map (·, i)

theorem definitions_cons (index : Nat) (token : String) (rest : List String) :
    definitions index (token :: rest) =
      ((Token.labelName? token).map (·, index)).toList ++ definitions (index + 1) rest := by
  rw [definitions, List.zipIdx_cons, List.filterMap_cons, definitions]
  cases h : Token.labelName? token <;> simp only [h, Option.map_none, Option.map_some] <;> rfl

theorem mem_definitions {tokens : List String} {name : String} {i : Nat} :
    (name, i) ∈ definitions 0 tokens ↔
      ∃ token, tokens[i]? = some token ∧ Token.labelName? token = some name := by
  simp only [definitions, List.mem_filterMap, Prod.exists, List.mem_zipIdx_iff_getElem?,
    Option.map_eq_some_iff, Prod.mk.injEq]
  constructor
  · rintro ⟨token, _, htoken, _, hname, rfl, rfl⟩
    exact ⟨token, htoken, hname⟩
  · rintro ⟨token, htoken, hname⟩
    exact ⟨token, i, htoken, name, hname, rfl, rfl⟩

/-- Among the first tokens of a program are the definitions with small indices. -/
theorem mem_definitions_iff_defines {p : Program} {before after : List String}
    (htokens : p.tokens.toList = before ++ after) {name : String} {i : Nat} :
    (name, i) ∈ definitions 0 before ↔ i < before.length ∧ p.Defines i name := by
  rw [mem_definitions, Program.Defines, Program.get?, ← Array.getElem?_toList, htokens]
  constructor
  · rintro ⟨token, htoken, hname⟩
    have hlt := (List.getElem?_eq_some_iff.mp htoken).1
    exact ⟨hlt, token, by rw [List.getElem?_append_left hlt, htoken], hname⟩
  · rintro ⟨hlt, token, htoken, hname⟩
    exact ⟨token, by rw [← htoken, List.getElem?_append_left hlt], hname⟩

theorem mem_definitions_program {p : Program} {name : String} {i : Nat} :
    (name, i) ∈ definitions 0 p.tokens.toList ↔ p.Defines i name := by
  rw [mem_definitions, Program.Defines, Program.get?, Array.getElem?_toList]

/-- Definitions come in the order of their indices. -/
theorem pairwise_definitions (index : Nat) (tokens : List String) :
    (definitions index tokens).Pairwise (·.2 < ·.2) := by
  have hindices : (tokens.zipIdx index).Pairwise (·.2 < ·.2) := by
    rw [← List.pairwise_map (f := Prod.snd) (R := (· < ·)), List.zipIdx_map_snd]
    exact List.pairwise_lt_range'
  refine List.pairwise_filterMap.mpr (hindices.imp ?_)
  intro a b hlt x hx y hy
  obtain ⟨_, _, rfl⟩ := Option.map_eq_some_iff.mp hx
  obtain ⟨_, _, rfl⟩ := Option.map_eq_some_iff.mp hy
  exact hlt

theorem nodup_definitions (index : Nat) (tokens : List String) :
    (definitions index tokens).Nodup := by
  refine (pairwise_definitions index tokens).imp ?_
  rintro a b hlt rfl
  exact Nat.lt_irrefl _ hlt

theorem length_definitions (index : Nat) (tokens : List String) :
    (definitions index tokens).length =
      tokens.countP fun token => (Token.labelName? token).isSome := by
  induction tokens generalizing index with
  | nil => rfl
  | cons token rest ih =>
    rw [definitions_cons, List.length_append, ih, List.countP_cons]
    cases Token.labelName? token <;> simp [Nat.add_comm]

/-- The names alone do not depend on the indices. -/
theorem map_fst_definitions (index : Nat) (tokens : List String) :
    (definitions index tokens).map Prod.fst = tokens.filterMap Token.labelName? := by
  induction tokens generalizing index with
  | nil => rfl
  | cons token rest ih =>
    rw [definitions_cons, List.map_append, ih]
    cases hname : Token.labelName? token <;> simp [hname]

/-! ### Names that are known -/

def names (t : Labels) : List String := t.entries.map Prod.fst

theorem isSome_get?_iff {t : Labels} {name : String} :
    (t.get? name).isSome ↔ name ∈ t.names := by
  rw [Option.isSome_iff_ne_none, get?, Ne, List.lookup_eq_none_iff, names, List.mem_map]
  constructor
  · intro h
    simp only [not_forall, bne_iff_ne, ne_eq, Decidable.not_not] at h
    obtain ⟨entry, hentry, rfl⟩ := h
    exact ⟨entry, hentry, rfl⟩
  · rintro ⟨entry, hentry, rfl⟩ h
    exact bne_iff_ne.mp (h entry hentry) rfl

/-- If every name is there once, looking it up finds its entry. -/
theorem get?_eq_some_iff {t : Labels} (h : t.names.Nodup) {name : String} {i : Nat} :
    t.get? name = some i ↔ (name, i) ∈ t.entries := by
  constructor
  · intro hget
    obtain ⟨before, after, hentries, _⟩ := List.lookup_eq_some_iff.mp hget
    rw [hentries]
    exact List.mem_append_right _ List.mem_cons_self
  · intro hmem
    obtain ⟨j, hget⟩ : ∃ j, t.get? name = some j := by
      apply Option.isSome_iff_exists.mp
      exact isSome_get?_iff.mpr (List.mem_map_of_mem hmem)
    obtain ⟨before, after, hentries, _⟩ := List.lookup_eq_some_iff.mp hget
    have hfound : (name, j) ∈ t.entries := by
      rw [hentries]
      exact List.mem_append_right _ List.mem_cons_self
    have heq := List.inj_on_of_nodup_map h hmem hfound rfl
    rw [hget, (Prod.mk.inj heq).2]

/-- The labels that are known after more tokens, if all their names are new. -/
def extend (t : Labels) (index : Nat) (tokens : List String) : Labels :=
  ⟨t.entries ++ definitions index tokens⟩

@[simp] theorem extend_nil (t : Labels) (index : Nat) : t.extend index [] = t := by
  rw [extend, definitions, List.zipIdx_nil, List.filterMap_nil, List.append_nil]

theorem extend_cons_of_none {token : String} (h : Token.labelName? token = none) (t : Labels)
    (index : Nat) (rest : List String) :
    t.extend index (token :: rest) = t.extend (index + 1) rest := by
  rw [extend, definitions_cons, h, Option.map_none, Option.toList_none, List.nil_append, extend]

theorem extend_cons_of_some {token name : String} (h : Token.labelName? token = some name)
    (t : Labels) (index : Nat) (rest : List String) :
    t.extend index (token :: rest) = (t.add name index).extend (index + 1) rest := by
  rw [extend, definitions_cons, h, Option.map_some, Option.toList_some, extend, add,
    List.append_assoc]

theorem nodup_names_add {t : Labels} {name : String} (h : t.names.Nodup) (hnew : name ∉ t.names)
    (index : Nat) : (t.add name index).names.Nodup := by
  rw [names, add, List.map_append]
  refine h.append (List.nodup_singleton name) ?_
  intro other hother hsame
  obtain rfl := List.mem_singleton.mp hsame
  exact hnew hother

/-! ### Looking at the tokens -/

/-- How looking at tokens may end: with the names of all of them, which are distinct, or at
    the first token with a name that is known. -/
inductive Scans (index : Nat) (known : Labels) (tokens : List String) :
    Except Fault Labels → Prop where
  | all (hdistinct : (known.extend index tokens).names.Nodup) :
      Scans index known tokens (.ok (known.extend index tokens))
  | again (before : List String) (token : String) (after : List String) (name : String)
      (htokens : tokens = before ++ token :: after) (hname : Token.labelName? token = some name)
      (hdistinct : (known.extend index before).names.Nodup)
      (hknown : name ∈ (known.extend index before).names) :
      Scans index known tokens (.error (.duplicateLabel (index + before.length) name))

/-- A token that the scan passes by adds what it defines to what is known. -/
theorem Scans.cons {index : Nat} {known known' : Labels} {token : String} {rest : List String}
    {result : Except Fault Labels} (h : Scans (index + 1) known' rest result)
    (hextend : ∀ tokens, known.extend index (token :: tokens) = known'.extend (index + 1) tokens) :
    Scans index known (token :: rest) result := by
  cases h with
  | all hdistinct =>
    rw [← hextend] at hdistinct ⊢
    exact .all hdistinct
  | again before token' after name htokens hname hdistinct hknown =>
    rw [← hextend] at hdistinct hknown
    rw [Nat.add_assoc, Nat.add_comm 1, ← List.length_cons (a := token)]
    exact .again (token :: before) token' after name (congrArg (token :: ·) htokens) hname
      hdistinct hknown

theorem scan_scans (index : Nat) {known : Labels} (h : known.names.Nodup) (tokens : List String) :
    Scans index known tokens (scan index known tokens) := by
  induction tokens generalizing index known with
  | nil =>
    rw [← extend_nil known index] at h
    have hall := Scans.all h
    rw [extend_nil] at hall
    exact hall
  | cons token rest ih =>
    unfold scan
    split
    · rename_i hname
      exact (ih (index + 1) h).cons fun tokens => extend_cons_of_none hname known index tokens
    · rename_i name hname
      split
      · rename_i hknown
        have hmem := isSome_get?_iff.mp hknown
        rw [← extend_nil known index] at h hmem
        exact .again [] token rest name rfl hname h hmem
      · rename_i hnew
        have hdistinct := nodup_names_add h (fun hmem => hnew (isSome_get?_iff.mpr hmem)) index
        exact (ih (index + 1) hdistinct).cons fun tokens =>
          extend_cons_of_some hname known index tokens

/-! ### The labels of a program -/

theorem nodup_names_iff (tokens : List String) :
    (empty.extend 0 tokens).names.Nodup ↔
      ∀ name i j, (name, i) ∈ definitions 0 tokens → (name, j) ∈ definitions 0 tokens → i = j := by
  rw [names, extend, empty, List.nil_append,
    List.nodup_map_iff_inj_on (nodup_definitions 0 tokens)]
  constructor
  · intro h name i j hi hj
    exact (Prod.mk.inj (h _ hi _ hj rfl)).2
  · rintro h ⟨name, i⟩ hi ⟨_, j⟩ hj rfl
    rw [h name i j hi hj]

theorem definesOnce_iff_nodup (p : Program) :
    p.DefinesOnce ↔ (p.tokens.toList.filterMap Token.labelName?).Nodup := by
  have hnames : (empty.extend 0 p.tokens.toList).names =
      p.tokens.toList.filterMap Token.labelName? := map_fst_definitions 0 _
  rw [← hnames, nodup_names_iff]
  simp only [mem_definitions_program, Program.DefinesOnce]

/-- A scan that stops has found the first repetition. -/
theorem repeats_of_again {p : Program} {before after : List String} {token name : String}
    (htokens : p.tokens.toList = before ++ token :: after)
    (hname : Token.labelName? token = some name)
    (hdistinct : (empty.extend 0 before).names.Nodup)
    (hknown : name ∈ (empty.extend 0 before).names) :
    p.Repeats before.length name ∧ ∀ k < before.length, ∀ other, ¬ p.Repeats k other := by
  have hmem (other : String) (i : Nat) := @mem_definitions_iff_defines p before _ htokens other i
  have hthere : p.Defines before.length name := by
    refine ⟨token, ?_, hname⟩
    rw [Program.get?, ← Array.getElem?_toList, htokens, List.getElem?_append_right (Nat.le_refl _),
      Nat.sub_self, List.getElem?_cons_zero]
  constructor
  · obtain ⟨⟨_, i⟩, hi, rfl⟩ := List.mem_map.mp hknown
    obtain ⟨hlt, hdefines⟩ := (hmem _ i).mp hi
    exact ⟨hthere, i, hlt, hdefines⟩
  · rintro k hk other ⟨hdefines, j, hj, hearlier⟩
    have heq := (nodup_names_iff before).mp hdistinct other k j ((hmem other k).mpr ⟨hk, hdefines⟩)
      ((hmem other j).mpr ⟨Nat.lt_trans hj hk, hearlier⟩)
    exact Nat.ne_of_lt hj heq.symm

/-- Either every name is defined once, and all are collected, or the first repetition is
    reported. -/
theorem ofProgram_cases (p : Program) :
    (ofProgram p = .ok ⟨definitions 0 p.tokens.toList⟩ ∧ p.DefinesOnce) ∨
      ∃ index name, ofProgram p = .error (.duplicateLabel index name) ∧
        p.Repeats index name ∧ ∀ k < index, ∀ other, ¬ p.Repeats k other := by
  have hnone : empty.names.Nodup := List.nodup_nil
  have hscans := scan_scans 0 hnone p.tokens.toList
  rw [ofProgram]
  generalize scan 0 empty p.tokens.toList = result at hscans ⊢
  cases hscans with
  | all hdistinct =>
    refine .inl ⟨rfl, ?_⟩
    intro name i j hi hj
    exact (nodup_names_iff p.tokens.toList).mp hdistinct name i j (mem_definitions_program.mpr hi)
      (mem_definitions_program.mpr hj)
  | again before token after name htokens hname hdistinct hknown =>
    have hrepeats := repeats_of_again htokens hname hdistinct hknown
    rw [Nat.zero_add]
    exact .inr ⟨before.length, name, rfl, hrepeats⟩

theorem ofProgram_eq_ok_iff {p : Program} {t : Labels} :
    ofProgram p = .ok t ↔ t = ⟨definitions 0 p.tokens.toList⟩ ∧ p.DefinesOnce := by
  constructor
  · intro h
    rcases ofProgram_cases p with ⟨hok, honce⟩ | ⟨index, name, herror, _, _⟩
    · rw [h, Except.ok.injEq] at hok
      exact ⟨hok, honce⟩
    · rw [h] at herror
      cases herror
  · rintro ⟨rfl, honce⟩
    rcases ofProgram_cases p with ⟨hok, _⟩ | ⟨index, name, _, hrepeats, _⟩
    · exact hok
    · exact absurd honce hrepeats.not_definesOnce

theorem ofProgram_eq_error_iff {p : Program} {fault : Fault} :
    ofProgram p = .error fault ↔
      ∃ index name, fault = .duplicateLabel index name ∧ p.Repeats index name ∧
        ∀ k < index, ∀ other, ¬ p.Repeats k other := by
  rcases ofProgram_cases p with ⟨hok, honce⟩ | ⟨index, name, herror, hrepeats, hfirst⟩
  · rw [hok]
    constructor
    · exact nofun
    · rintro ⟨index, name, _, hrepeats, _⟩
      exact absurd honce hrepeats.not_definesOnce
  · rw [herror, Except.error.injEq]
    constructor
    · rintro rfl
      exact ⟨index, name, rfl, hrepeats, hfirst⟩
    · rintro ⟨index', name', rfl, hrepeats', hfirst'⟩
      obtain ⟨rfl, rfl⟩ := hrepeats.unique hrepeats' hfirst hfirst'
      rfl

theorem index?_isSome_of_error {p : Program} {fault : Fault} (h : ofProgram p = .error fault) :
    fault.index?.isSome := by
  obtain ⟨index, name, rfl, _⟩ := ofProgram_eq_error_iff.mp h
  rfl

/-- Where no label is defined, there is none to collect. -/
theorem ofProgram_of_unlabelled {p : Program}
    (h : ∀ token ∈ p.tokens.toList, Token.labelName? token = none) : ofProgram p = .ok .empty := by
  have hnone : ∀ i name, ¬ p.Defines i name := by
    rintro i name ⟨token, htoken, hname⟩
    rw [h token (Program.mem_of_get? htoken)] at hname
    cases hname
  refine ofProgram_eq_ok_iff.mpr ⟨?_, fun name i _ hi => absurd hi (hnone i name)⟩
  refine congrArg Labels.mk (List.eq_nil_iff_forall_not_mem.mpr ?_).symm
  rintro ⟨name, i⟩ hmem
  exact hnone i name (mem_definitions_program.mp hmem)

/-- What is collected can be looked up. -/
theorem get?_ofProgram {p : Program} {t : Labels} (h : ofProgram p = .ok t) {name : String}
    {i : Nat} : t.get? name = some i ↔ p.Defines i name := by
  obtain ⟨rfl, honce⟩ := ofProgram_eq_ok_iff.mp h
  have hdistinct : (⟨definitions 0 p.tokens.toList⟩ : Labels).names.Nodup := by
    refine (nodup_names_iff p.tokens.toList).mpr ?_
    intro name i j hi hj
    exact honce name i j (mem_definitions_program.mp hi) (mem_definitions_program.mp hj)
  rw [get?_eq_some_iff hdistinct]
  exact mem_definitions_program

/-- However entries with growing indices are shuffled, sorting puts them back. -/
theorem mergeSort_eq_of_perm {entries found : List (String × Nat)}
    (hgrow : entries.Pairwise (·.2 < ·.2)) (hperm : found.Perm entries) :
    (found.mergeSort fun a b => decide (a.2 ≤ b.2)) = entries := by
  have hindices : (entries.map Prod.snd).Nodup :=
    List.pairwise_map.mpr (hgrow.imp Nat.ne_of_lt)
  have hsorted : (found.mergeSort fun a b => decide (a.2 ≤ b.2)).Pairwise
      fun a b => decide (a.2 ≤ b.2) = true := by
    apply List.pairwise_mergeSort
    · simp only [decide_eq_true_eq]
      omega
    · simp only [Bool.or_eq_true, decide_eq_true_eq]
      omega
  have hentries : entries.Pairwise fun a b => decide (a.2 ≤ b.2) = true :=
    hgrow.imp fun hlt => decide_eq_true (Nat.le_of_lt hlt)
  have hall : (found.mergeSort fun a b => decide (a.2 ≤ b.2)).Perm entries :=
    (found.mergeSort_perm _).trans hperm
  refine List.Perm.eq_of_pairwise ?_ hsorted hentries hall
  intro a b ha hb hle hge
  exact List.inj_on_of_nodup_map hindices (hall.subset ha) hb
    (Nat.le_antisymm (of_decide_eq_true hle) (of_decide_eq_true hge))

/-- **The labels are collected, all of them and in order, or the run has not begun.** -/
theorem collected_or_refused (p : Program) :
    ((∃ t, ofProgram p = .ok t) ↔ p.DefinesOnce) ∧
    (∀ t, ofProgram p = .ok t →
      (∀ name i, t.get? name = some i ↔ p.Defines i name) ∧
      t.size = (p.tokens.toList.countP fun token => (Token.labelName? token).isSome) ∧
      (∀ name i, (name, i) ∈ t.entries ↔ p.Defines i name) ∧
      t.entries.Pairwise (·.2 < ·.2) ∧
      ∀ found : List (String × Nat), found.Perm t.entries →
        (found.mergeSort fun a b => decide (a.2 ≤ b.2)) = t.entries) ∧
    (∀ fault, ofProgram p = .error fault ↔
      ∃ index name, fault = .duplicateLabel index name ∧ p.Repeats index name ∧
        ∀ k < index, ∀ other, ¬ p.Repeats k other) ∧
    ∀ fault, ofProgram p = .error fault →
      ∀ {σ : Type} (sink : Sink σ) (config : Config) (m : Machine) (s : σ) (n : Nat),
        (⟨p, config⟩ : Task).execute? sink n m s = some (.error fault, m, s) ∧
        (⟨p, config⟩ : Task).events sink m s n = [] := by
  refine ⟨?_, ?_, fun fault => ofProgram_eq_error_iff, ?_⟩
  · constructor
    · rintro ⟨t, h⟩
      exact (ofProgram_eq_ok_iff.mp h).2
    · intro honce
      exact ⟨_, ofProgram_eq_ok_iff.mpr ⟨rfl, honce⟩⟩
  · intro t h
    have hget := @get?_ofProgram p t h
    obtain ⟨rfl, _⟩ := ofProgram_eq_ok_iff.mp h
    have hgrow := pairwise_definitions 0 p.tokens.toList
    exact ⟨fun _ _ => hget, length_definitions 0 p.tokens.toList,
      fun _ _ => mem_definitions_program, hgrow, fun _ hperm => mergeSort_eq_of_perm hgrow hperm⟩
  · intro fault h σ sink config m s n
    exact ⟨Task.execute?_of_labels_error _ sink m s h n,
      Task.events_of_labels_error _ sink m s h n⟩

/-- A blank behind the mark does not make it another name. -/
theorem collected_or_refused_blank :
    let p : Program := ⟨#["a:", "1.", "a:\u00a0"]⟩
    p.Repeats 2 "a" ∧
      (⟨p, ⟨.trailing, true, some 0⟩⟩ : Task).execute? Journal.sink 0 .fresh .empty =
        some (.error (.duplicateLabel 2 "a"), .fresh, .empty) := by
  intro p
  have herror : ofProgram p = .error (.duplicateLabel 2 "a") := rfl
  obtain ⟨_, _, hfault, hrefused⟩ := collected_or_refused p
  obtain ⟨index, name, heq, hrepeats, _⟩ := (hfault _).mp herror
  obtain ⟨rfl, rfl⟩ := Fault.duplicateLabel.inj heq
  exact ⟨hrepeats, (hrefused _ herror Journal.sink _ _ _ 0).1⟩

end Labels

end DequeMachine

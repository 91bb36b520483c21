/-
  DequeMachine/Proofs/Command.lean
  ================================
  **What the two commands show.**

  A command line with a path in front is read as that path and the options behind it
  (`Options.path_of_ofArguments`).  The run that it asks for goes to two channels without
  limits, and with them it is the run that goes to a journal; each channel ends up with the
  lines of its events (`execute?_lines`).

  The listing does not run the program.  It collects the labels on its own, after the tokens
  have been listed, and a run fails by a label that is defined twice only if collecting
  them fails.  So the two commands agree on which programs have bad labels, and say the same
  about them (`answers_agree`).
-/
import DequeMachine.Proofs.Command.Options
import DequeMachine.Proofs.Run.Limit
import DequeMachine.Proofs.Run.Lines

namespace DequeMachine

/-! ### The text of a channel -/

theorem Listing.unlines_cons (line : String) (lines : List String) :
    unlines (line :: lines) = line ++ "\n" ++ unlines lines := by
  rw [unlines, List.map_cons, String.join_cons, unlines]

theorem Channel.text_toUTF8 (capacity : Option Nat) (s : String) :
    (⟨capacity, s.toUTF8.data⟩ : Channel).text = s := by
  have hvalid : String.fromUTF8? s.toUTF8 = some s := dif_pos s.isValidUTF8
  have hwhole : s.toUTF8.data.take (s.toUTF8.data.size - 0) = s.toUTF8.data := by
    rw [Nat.sub_zero, Array.take_eq_extract, Array.extract_size]
  simp only [text, hwhole, hvalid]

namespace Lines

/-- The lines of the steps among some events, or of the others. -/
def shown (isStep : Bool) (events : List Event) : String :=
  Listing.unlines ((events.filter (·.isStep == isStep)).map Event.line)

theorem shown_steps (events : List Event) :
    shown true events = Listing.unlines ((events.filter (·.isStep)).map Event.line) := by
  simp [shown]

theorem shown_others (events : List Event) :
    shown false events = Listing.unlines ((events.filter (!·.isStep)).map Event.line) := by
  simp [shown]

theorem stream_eq_toUTF8 (isStep : Bool) (events : List Event) :
    stream isStep events = (shown isStep events).toUTF8.data.toList := by
  have happend : ∀ a b : String,
      (a ++ b).toUTF8.data.toList = a.toUTF8.data.toList ++ b.toUTF8.data.toList := by
    intro a b
    rw [String.toUTF8_eq_toByteArray, String.toByteArray_append, ByteArray.data_append,
      Array.toList_append]
    rfl
  unfold stream shown
  generalize events.filter (·.isStep == isStep) = kept
  induction kept with
  | nil => rfl
  | cons e rest ih =>
    rw [List.flatMap_cons, ih, Event.bytes, List.map_cons, Listing.unlines_cons,
      happend (e.line ++ "\n")]

theorem text_holding (events : List Event) :
    (holding (fun _ => none) events).out.text = shown false events ∧
      (holding (fun _ => none) events).debug.text = shown true events := by
  simp only [holding, stream_eq_toUTF8]
  exact ⟨Channel.text_toUTF8 none _, Channel.text_toUTF8 none _⟩

end Lines

namespace Task

/-- **A run on two channels without limits is the run that a journal sees,** and the channels
    hold its events. -/
theorem execute?_lines (task : Task) {n : Nat} {m m' : Machine} {result : Except Fault Outcome}
    {j : Journal} (h : task.execute? Journal.sink n m .empty = some (result, m', j)) :
    task.execute? Lines.sink n m .unlimited =
      some (result, m', Lines.holding (fun _ => none) j.events.toList) := by
  have hsink : ∀ (j : Journal) (l : Lines) (e : Event),
      l = Lines.holding (fun _ => none) j.events.toList →
      Reply.Alike (fun (j : Journal) l => l = Lines.holding (fun _ => none) j.events.toList)
        (Journal.sink.offer j e) (Lines.sink.offer l e) := by
    rintro j _ e rfl
    rw [Lines.offer_of_fits (Lines.fits_of_unlimited _)]
    refine .accepted ?_
    rw [Journal.keep, Array.toList_push]
  have halike := task.run_alike hsink m (s := Journal.empty) (t := .unlimited) rfl n
  rw [execute?_eq_some_iff] at h ⊢
  rw [h] at halike
  generalize task.run Lines.sink m .unlimited n = run at halike ⊢
  cases halike with
  | ended h => rw [h]

end Task

namespace Command

/-! ### Reading a command line -/

section Arguments

variable {path : String} (hdash : path.toList.head? ≠ some '-')
include hdash

/-- **The path in front is the path of the options.** -/
theorem Options.path_of_ofArguments {arguments : List String} {options : Options}
    (h : Options.ofArguments (path :: arguments) = .ok options) : options.path = path := by
  have hdashes : ¬∃ name, path = "--" ++ name := by
    rintro ⟨name, rfl⟩
    apply hdash
    rw [String.toList_append]
    rfl
  have hitems := Item.reads_iff.mp (.path hdashes (Item.reads_ofArguments arguments))
  rw [Options.ofArguments, hitems] at h
  have hpath := (ofItems_eq_ok_iff.mp h).2.path
  simp only [List.filterMap_cons, Item.path?, List.cons.injEq] at hpath
  exact hpath.1.symm

theorem ofArguments_run (htokens : path ≠ "tokens") (hhelp : path ≠ "help")
    {arguments : List String} {options : Options}
    (h : Options.ofArguments (path :: arguments) = .ok options) :
    ofArguments (path :: arguments) = .ok (.run options) := by
  rw [ofArguments_run_eq htokens hhelp hdash, withOptions, h]

end Arguments

theorem ofArguments_list {path : String} {arguments : List String} {options : Options}
    (h : Options.ofArguments (path :: arguments) = .ok options) :
    ofArguments ("tokens" :: path :: arguments) = .ok (.list options) := by
  rw [ofArguments_list_eq (List.cons_ne_nil path arguments), withOptions, h]

/-! ### The answers -/

theorem runResponse_holding (result : Except Fault Outcome) (events : List Event) :
    runResponse result (.holding (fun _ => none) events) =
      ⟨(verdict result).1, Lines.shown false events,
        Lines.shown true events ++ (verdict result).2⟩ := by
  rw [runResponse, (Lines.text_holding events).1, (Lines.text_holding events).2]

theorem exitCode_of_ne_duplicateLabel {fault : Fault}
    (h : ∀ index name, fault ≠ .duplicateLabel index name) : exitCode fault = 3 := by
  cases fault with
  | duplicateLabel index name => exact absurd rfl (h index name)
  | _ => rfl

/-- Only a label that is defined twice has the second exit code. -/
theorem verdict_ne_two {result : Except Fault Outcome}
    (h : ∀ index name, result ≠ .error (.duplicateLabel index name)) : (verdict result).1 ≠ 2 := by
  cases result with
  | ok o => exact Nat.zero_ne_add_one 1
  | error fault =>
    have hcode : exitCode fault = 3 := by
      apply exitCode_of_ne_duplicateLabel
      rintro index name rfl
      exact h index name rfl
    rw [verdict, hcode]
    exact show (3 : Nat) ≠ 2 by decide

theorem listResponse_of_ok {config : Config} {source : String} {labels : Labels}
    (h : Labels.ofProgram (Program.parse source) = .ok labels) :
    listResponse config source =
      ⟨0, Listing.unlines (Listing.tokenLines config.rule (Program.parse source)) ++
        Listing.unlines (Listing.labelLines labels), ""⟩ := by
  simp only [listResponse, h]

theorem listResponse_of_error {config : Config} {source : String} {fault : Fault}
    (h : Labels.ofProgram (Program.parse source) = .error fault) :
    listResponse config source =
      ⟨exitCode fault, Listing.unlines (Listing.tokenLines config.rule (Program.parse source)),
        errorLine fault.message⟩ := by
  simp only [listResponse, h]

/-- The listing has a line for each token, with all that the run takes it to say. -/
theorem tokenLines_spec (config : Config) (source : String) :
    (Listing.tokenLines config.rule (Program.parse source)).length = (Program.parse source).size ∧
      ∀ index token, (Program.parse source).get? index = some token →
        let decoded := Token.decode config.rule token
        (∀ m, (taskOf config source).instruction m token = .ofDecoded m.labels decoded) ∧
        (Listing.tokenLines config.rule (Program.parse source))[index]? =
          some (toString index ++ "\t" ++ decoded.side.name ++ "\t" ++ Text.quote token ++ "\t" ++
            Text.quote decoded.operand ++ if decoded.isLabel then "\tlabel" else "") := by
  constructor
  · rw [Listing.tokenLines, List.length_mapIdx, Array.length_toList, Program.size]
  · intro index token htoken
    refine ⟨fun _ => rfl, ?_⟩
    rw [Listing.tokenLines, List.getElem?_mapIdx, Array.getElem?_toList, ← Program.get?, htoken]
    rfl

section Answers

variable {read : String → Except ReadFault String} {path source : String}
  {arguments : List String} {options : Options} (hdash : path.toList.head? ≠ some '-')
  (hoptions : Options.ofArguments (path :: arguments) = .ok options)
  (hread : read path = .ok source)
include hdash hoptions hread

theorem respond?_run {n : Nat} {result : Except Fault Outcome} {m : Machine} {j : Journal}
    (hrun : (taskOf options.config source).execute? Journal.sink n .fresh .empty =
      some (result, m, j)) :
    (Command.run options).respond? read n =
      some (runResponse result (.holding (fun _ => none) j.events.toList)) := by
  simp only [respond?, Options.path_of_ofArguments hdash hoptions, hread,
    Task.execute?_lines _ hrun, Option.map_some]

theorem respond?_list (n : Nat) :
    (Command.list options).respond? read n = some (listResponse options.config source) := by
  simp only [respond?, Options.path_of_ofArguments hdash hoptions, hread]

/-- **The commands show the run, and they agree on bad labels.**  Whenever the run of a program
    comes to an end, the command that runs it shows the lines of its events, the steps on the
    error stream and all others on the output stream, and behind them a word on the fault if
    there is one.  Its exit code tells a good end from a label that is defined twice, which
    leaves nothing but that word, and both from all other faults.  The command that lists the
    program fails exactly if that label is the end of the run, and with the same word.  Good or
    bad, it lists each token as the run takes it apart. -/
theorem answers_agree (htokens : path ≠ "tokens") (hhelp : path ≠ "help") {n : Nat}
    {result : Except Fault Outcome} {m : Machine} {j : Journal}
    (hrun : (taskOf options.config source).execute? Journal.sink n .fresh .empty =
      some (result, m, j)) :
    ∃ run listing r t words,
      ofArguments (path :: arguments) = .ok run ∧ run.respond? read n = some r ∧
      ofArguments ("tokens" :: path :: arguments) = .ok listing ∧
      (∀ k, listing.respond? read k = some t) ∧
      r.out = Listing.unlines ((j.events.toList.filter (!·.isStep)).map Event.line) ∧
      r.err = Listing.unlines ((j.events.toList.filter (·.isStep)).map Event.line) ++ words ∧
      (∀ o, result = .ok o → r.code = 0 ∧ words = "") ∧
      (∀ fault, result = .error fault → words = "error: " ++ fault.message ++ "\n" ∧
        ((∀ index name, fault ≠ .duplicateLabel index name) → r.code = 3) ∧
        (∀ index name, fault = .duplicateLabel index name →
          r.code = 2 ∧ r.out = "" ∧ r.err = words)) ∧
      (r.code = 2 ↔ t.code = 2 ∧ t.err = r.err) ∧
      (r.code ≠ 2 → t.code = 0 ∧ t.err = "") ∧
      ∃ lines labels, t.out = Listing.unlines lines ++ labels ∧
        (r.code = 2 → labels = "") ∧
        lines.length = (Program.parse source).size ∧
        ∀ index token, (Program.parse source).get? index = some token →
          let decoded := Token.decode options.config.rule token
          (∀ m, (taskOf options.config source).instruction m token =
            .ofDecoded m.labels decoded) ∧
          lines[index]? = some (toString index ++ "\t" ++ decoded.side.name ++ "\t" ++
            Text.quote token ++ "\t" ++ Text.quote decoded.operand ++
            if decoded.isLabel then "\tlabel" else "") := by
  have hanswer := respond?_run hdash hoptions hread hrun
  rw [runResponse_holding, Lines.shown_steps, Lines.shown_others] at hanswer
  have hlist := respond?_list hdash hoptions hread
  have hlines := tokenLines_spec options.config source
  refine ⟨_, _, _, _, (verdict result).2, ofArguments_run hdash htokens hhelp hoptions, hanswer,
    ofArguments_list hoptions, hlist, rfl, rfl, ?_⟩
  rcases (taskOf options.config source).labels_of_execute? _ _ hrun with
    ⟨labels, hlabels, hresult⟩ | ⟨index, name, hlabels, rfl, rfl⟩
  -- good labels: whatever else ends the run does not concern the listing
  · have hcode := verdict_ne_two hresult
    rw [listResponse_of_ok hlabels]
    refine ⟨?_, ?_, iff_of_false hcode ?_, ?_, Listing.tokenLines _ _, _, rfl, ?_, hlines⟩
    · rintro o rfl
      exact ⟨rfl, rfl⟩
    · rintro fault rfl
      refine ⟨rfl, exitCode_of_ne_duplicateLabel, ?_⟩
      rintro index name rfl
      exact absurd rfl (hresult index name)
    · rintro ⟨htwo, _⟩
      cases htwo
    · intro _
      exact ⟨rfl, rfl⟩
    · intro htwo
      exact absurd htwo hcode
  · rw [listResponse_of_error hlabels]
    refine ⟨?_, ?_, iff_of_true rfl ⟨rfl, rfl⟩, fun hcode => absurd rfl hcode,
      Listing.tokenLines _ _, "", String.append_empty.symm, fun _ => rfl, hlines⟩
    · rintro o ⟨⟩
    · rintro fault ⟨⟩
      refine ⟨rfl, fun hother => absurd rfl (hother index name), ?_⟩
      rintro _ _ ⟨⟩
      exact ⟨rfl, rfl, rfl⟩

end Answers

/-- A label that is defined twice, seen by both commands. -/
theorem answers_agree_duplicate :
    let d : Directory := ⟨[("p", "a: a:".toUTF8)]⟩
    ∃ r t, answer? d 0 ["p", "--trace"] = some r ∧
      answer? d 0 ["tokens", "p", "--trace"] = some t ∧
      r.code = 2 ∧ t.code = 2 ∧ t.err = r.err := by
  intro d
  have hoptions : Options.ofArguments ["p", "--trace"] =
      .ok ⟨"p", { trace := true }⟩ := by rfl
  have hread : d.read "p" = .ok "a: a:" := by rfl
  have hrun : (taskOf { trace := true } "a: a:").execute? Journal.sink 0 .fresh .empty =
      some (.error (.duplicateLabel 1 "a"), .fresh, .empty) := by rfl
  obtain ⟨run, listing, r, t, words, hcommand, hanswer, hlisting, hlist, _, _, _, herror, hagree,
    _⟩ := answers_agree (by decide) hoptions hread (by decide) (by decide) hrun
  obtain ⟨_, _, hduplicate⟩ := herror _ rfl
  have hcode := (hduplicate 1 "a" rfl).1
  refine ⟨r, t, ?_, ?_, hcode, hagree.mp hcode⟩
  · rw [answer?, hcommand]
    exact hanswer
  · rw [answer?, hlisting]
    exact hlist 0

end Command

end DequeMachine

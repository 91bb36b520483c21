/-
  DequeMachine/Proofs/Run/Lines.lean
  ==================================
  **Lines on two channels of limited size.**

  The events of a run make two streams of bytes, one of the steps and one of all other
  events (`Lines.stream`).  A channel without a limit takes its stream as it is.  With
  limits, the events are taken up to the first whose line does not fit on its channel;
  the run ends there, its channel is filled to the last byte, and the other channel has
  the lines of what came before (`lines_cut`).

  The limits and the streams are indexed by whether an event is a step.  All that has to
  be known of the channels is what they answer to a list of events
  (`offerAll_eq_accepted_iff`, `exists_offer_of_exceeds`); where the run is cut then
  follows from the general law about refused events.
-/
import DequeMachine.Proofs.Run.Cut
import Mathlib.Data.List.Induction

namespace DequeMachine

/-- The bytes of the line for an event. -/
def Event.bytes (e : Event) : List UInt8 := (e.line ++ "\n").toUTF8.data.toList

/-! ### One channel -/

namespace Channel

variable {capacity : Option Nat} {taken : List UInt8} {text : String}

theorem write_of_fits
    (h : ∀ n ∈ capacity, (taken ++ text.toUTF8.data.toList).length ≤ n) :
    (⟨capacity, taken.toArray⟩ : Channel).write text =
      (⟨capacity, (taken ++ text.toUTF8.data.toList).toArray⟩, true) := by
  simp only [write]
  generalize text.toUTF8.data = new at h ⊢
  have hfit : fitting capacity taken.toArray.size new = new := by
    cases capacity with
    | none => rfl
    | some n =>
      have hle := h n rfl
      simp only [List.length_append, Array.length_toList] at hle
      simp only [fitting, List.size_toArray, Array.take_eq_extract]
      apply Array.extract_eq_self_of_le
      omega
  rw [hfit, beq_self_eq_true]
  simp

theorem write_of_exceeds {n : Nat} (hroom : taken.length ≤ n)
    (h : n < (taken ++ text.toUTF8.data.toList).length) :
    (⟨some n, taken.toArray⟩ : Channel).write text =
      (⟨some n, ((taken ++ text.toUTF8.data.toList).take n).toArray⟩, false) := by
  simp only [write]
  generalize text.toUTF8.data = new at h ⊢
  have hcut : (fitting (some n) taken.toArray.size new).size ≠ new.size := by
    simp only [List.length_append, Array.length_toList] at h
    simp only [fitting, List.size_toArray, Array.take_eq_extract, Array.size_extract]
    omega
  rw [beq_eq_false_iff_ne.mpr hcut, List.take_append, List.take_of_length_le hroom]
  simp [fitting]

end Channel

/-! ### Two channels -/

namespace Lines

/-- The bytes of the lines for the steps among some events, or for the others. -/
def stream (isStep : Bool) (events : List Event) : List UInt8 :=
  (events.filter (·.isStep == isStep)).flatMap Event.bytes

/-- The channel for the steps, or the one for the others. -/
def channel (l : Lines) (isStep : Bool) : Channel := if isStep then l.debug else l.out

/-- Two empty channels with room for so many bytes. -/
def ofRoom (room : Bool → Option Nat) : Lines := ⟨.ofCapacity (room false), .ofCapacity (room true)⟩

/-- Two channels that have taken all lines of some events. -/
def holding (room : Bool → Option Nat) (events : List Event) : Lines :=
  ⟨⟨room false, (stream false events).toArray⟩, ⟨room true, (stream true events).toArray⟩⟩

/-- Do the streams of some events stay within the room on their channels? -/
def Fits (room : Bool → Option Nat) (events : List Event) : Prop :=
  ∀ isStep, ∀ n ∈ room isStep, (stream isStep events).length ≤ n

variable {room : Bool → Option Nat} {events : List Event} {e : Event}

theorem stream_append (isStep : Bool) (a b : List Event) :
    stream isStep (a ++ b) = stream isStep a ++ stream isStep b := by
  simp [stream]

theorem stream_concat_self (isStep : Bool) (h : e.isStep = isStep) :
    stream isStep (events ++ [e]) = stream isStep events ++ e.bytes := by
  simp [stream, h]

theorem stream_concat_other (isStep : Bool) (h : e.isStep = !isStep) :
    stream isStep (events ++ [e]) = stream isStep events := by
  simp [stream, h]

theorem Fits.of_append {a b : List Event} (h : Fits room (a ++ b)) : Fits room a := by
  intro isStep n hn
  have hle := h isStep n hn
  rw [stream_append, List.length_append] at hle
  exact Nat.le_of_add_right_le hle

theorem fits_of_unlimited (events : List Event) : Fits (fun _ => none) events := by
  intro isStep n hn
  cases hn

/-- What keeps an event from fitting is the room on its own channel. -/
theorem exists_lt_of_not_fits (h : Fits room events) (hexceeds : ¬ Fits room (events ++ [e])) :
    ∃ n, room e.isStep = some n ∧ (stream e.isStep events).length ≤ n ∧
      n < (stream e.isStep events ++ e.bytes).length := by
  simp only [Fits, not_forall, Nat.not_le] at hexceeds
  obtain ⟨isStep, n, hn, hlt⟩ := hexceeds
  by_cases hkind : e.isStep = isStep
  · rw [stream_concat_self isStep hkind] at hlt
    subst hkind
    exact ⟨n, hn, h _ n hn, hlt⟩
  · rw [stream_concat_other isStep (Bool.eq_not.mpr hkind)] at hlt
    exact absurd (h isStep n hn) (Nat.not_le.mpr hlt)

/-- An event whose line fits is taken. -/
theorem offer_of_fits (h : Fits room (events ++ [e])) :
    sink.offer (holding room events) e = .accepted (holding room (events ++ [e])) := by
  have hline := h e.isStep
  rw [stream_concat_self e.isStep rfl] at hline
  cases hkind : e.isStep with
  | true =>
    rw [hkind] at hline
    simp only [sink, write, holding, hkind, if_true, Channel.write_of_fits hline,
      stream_concat_self true hkind, stream_concat_other false hkind]
    rfl
  | false =>
    rw [hkind] at hline
    simp only [sink, write, holding, hkind, Bool.false_eq_true, if_false,
      Channel.write_of_fits hline, stream_concat_self false hkind, stream_concat_other true hkind]
    rfl

/-- An event whose line does not fit is refused, and its channel is filled. -/
theorem exists_offer_of_exceeds (h : Fits room events) (hexceeds : ¬ Fits room (events ++ [e])) :
    ∃ n l, room e.isStep = some n ∧ n ≤ (stream e.isStep (events ++ [e])).length ∧
      sink.offer (holding room events) e = .refused reasonFull l ∧
      (l.channel e.isStep).bytes.toList = (stream e.isStep (events ++ [e])).take n ∧
      (l.channel (!e.isStep)).bytes.toList = stream (!e.isStep) events := by
  obtain ⟨n, hn, hle, hlt⟩ := exists_lt_of_not_fits h hexceeds
  rw [stream_concat_self e.isStep rfl]
  cases hkind : e.isStep with
  | true =>
    rw [hkind] at hn hle hlt
    refine ⟨n, ⟨⟨room false, (stream false events).toArray⟩,
      ⟨room true, ((stream true events ++ e.bytes).take n).toArray⟩⟩, hn, Nat.le_of_lt hlt,
      ?_, rfl, rfl⟩
    simp only [sink, write, holding, hkind, hn, if_true, Channel.write_of_exceeds hle hlt]
    rfl
  | false =>
    rw [hkind] at hn hle hlt
    refine ⟨n, ⟨⟨room false, ((stream false events ++ e.bytes).take n).toArray⟩,
      ⟨room true, (stream true events).toArray⟩⟩, hn, Nat.le_of_lt hlt, ?_, rfl, rfl⟩
    simp only [sink, write, holding, hkind, hn, Bool.false_eq_true, if_false,
      Channel.write_of_exceeds hle hlt]
    rfl

/-- **Two channels accept exactly the events that fit,** and hold their lines. -/
theorem offerAll_eq_accepted_iff {l : Lines} :
    sink.offerAll (ofRoom room) events = .accepted l ↔
      Fits room events ∧ l = holding room events := by
  -- from the end of the list: whether the last line fits depends on the lines before it
  induction events using List.reverseRecOn generalizing l with
  | nil =>
    constructor
    · intro h
      cases h
      exact ⟨fun _ _ _ => Nat.zero_le _, rfl⟩
    · rintro ⟨_, rfl⟩
      rfl
  | append_singleton events e ih =>
    constructor
    · intro h
      cases hbefore : sink.offerAll (ofRoom room) events with
      | refused reason u =>
        rw [Sink.offerAll_append_of_refused hbefore] at h
        cases h
      | accepted u =>
        obtain ⟨hfits, rfl⟩ := ih.mp hbefore
        rw [Sink.offerAll_append_of_accepted hbefore] at h
        by_cases hline : Fits room (events ++ [e])
        · rw [Sink.offerAll_cons_of_accepted (offer_of_fits hline)] at h
          cases h
          exact ⟨hline, rfl⟩
        · obtain ⟨n, u, _, _, hrefused, _⟩ := exists_offer_of_exceeds hfits hline
          rw [Sink.offerAll_cons_of_refused hrefused] at h
          cases h
    · rintro ⟨hfits, rfl⟩
      have hbefore := ih.mpr ⟨hfits.of_append, rfl⟩
      rw [Sink.offerAll_append_of_accepted hbefore,
        Sink.offerAll_cons_of_accepted (offer_of_fits hfits)]
      rfl

theorem sink_accepts_unlimited :
    sink.Accepts fun l => ∃ events, l = holding (fun _ => none) events := by
  rintro _ e ⟨events, rfl⟩
  exact ⟨_, offer_of_fits (fits_of_unlimited _), _, rfl⟩

end Lines

/-! ### Runs on two channels -/

namespace Task

open Lines

variable (task : Task) (m : Machine)

theorem unlimited_eq_holding : ∃ events, unlimited = holding (fun _ => none) events := ⟨[], rfl⟩

theorem run_unlimited (n : Nat) :
    (task.run sink m unlimited n).state =
      holding (fun _ => none) (task.events sink m unlimited n) := by
  have hall : sink.offerAll unlimited (task.events sink m unlimited n) =
      .accepted (holding (fun _ => none) (task.events sink m unlimited n)) :=
    offerAll_eq_accepted_iff.mpr ⟨fits_of_unlimited _, rfl⟩
  exact (task.run_of_accepted sink sink_accepts_unlimited m unlimited_eq_holding hall).state_rel

/-- **Two channels of limited size get the first bytes of what channels without a limit
    get.**  Without limits each channel holds its stream.  If the streams stay within the
    limits, the run and the bytes are the same.  Otherwise there is a first event whose
    line exceeds the room on its channel, and the run ends with the fault of the instruction
    that offered it: that channel is full, and the other one holds the lines of the events
    before. -/
theorem lines_cut (room : Bool → Option Nat) (n : Nat) :
    let events := task.events sink m unlimited
    (∀ isStep, ((task.run sink m unlimited n).state.channel isStep).bytes.toList =
        stream isStep (events n)) ∧
      (Fits room (events n) →
        (task.execute? sink n m (ofRoom room)).map
            (fun (result, m, l) => (result, m, l.out.bytes, l.debug.bytes)) =
          (task.execute? sink n m unlimited).map
            (fun (result, m, l) => (result, m, l.out.bytes, l.debug.bytes))) ∧
      (¬ Fits room (events n) →
        ∃ before e rest, events n = before ++ e :: rest ∧
          Fits room before ∧ ¬ Fits room (before ++ [e]) ∧
          ∃ i < n, ∃ start token,
            task.beginning? (task.run sink m unlimited i) = some (start, token) ∧
            (events i).length ≤ before.length ∧ before.length < (events (i + 1)).length ∧
            ∃ m' l limit,
              task.execute? sink n m (ofRoom room) =
                some (.error (.output start.index "failed to write whole buffer"), m', l) ∧
              room e.isStep = some limit ∧
              (l.channel e.isStep).bytes.size = limit ∧
              (l.channel e.isStep).bytes.toList = (stream e.isStep (events n)).take limit ∧
              (l.channel (!e.isStep)).bytes.toList = stream (!e.isStep) before) := by
  intro events
  refine ⟨?uncut, ?within, ?past⟩
  case uncut =>
    intro isStep
    rw [run_unlimited]
    cases isStep <;> rfl
  case within =>
    intro hfits
    have hall := offerAll_eq_accepted_iff.mpr ⟨hfits, rfl⟩
    have halike := task.run_of_accepted sink sink_accepts_unlimited m unlimited_eq_holding hall
    refine execute?_alike _ halike.with_states ?_
    rintro result m' l l' ⟨rfl, _, rfl⟩
    rw [run_unlimited]
    rfl
  case past =>
    intro hexceeds
    cases hall : sink.offerAll (ofRoom room) (events n) with
    | accepted l => exact absurd (offerAll_eq_accepted_iff.mp hall).1 hexceeds
    | refused reason l =>
      obtain ⟨before, e, rest, u, hevents, hbefore, hrefused, i, hi, start, token, hbegin, hle,
        hlt, m', hend⟩ :=
          task.exists_refusal sink sink_accepts_unlimited m unlimited_eq_holding hall
      obtain ⟨hfits, rfl⟩ := offerAll_eq_accepted_iff.mp hbefore
      have hline : ¬ Fits room (before ++ [e]) := by
        intro hline
        rw [offer_of_fits hline] at hrefused
        cases hrefused
      obtain ⟨limit, l', hroom, hfull, hoffer, hbytes, hother⟩ :=
        exists_offer_of_exceeds hfits hline
      rw [hoffer] at hrefused
      cases hrefused
      have hstream : (stream e.isStep (before ++ [e])).take limit =
          (stream e.isStep (events n)).take limit := by
        have hsplit : events n = (before ++ [e]) ++ rest := hevents.trans (by simp)
        rw [hsplit, stream_append e.isStep (before ++ [e]) rest,
          List.take_append_of_le_length hfull]
      refine ⟨before, e, rest, hevents, hfits, hline, i, hi, start, token, hbegin, hle, hlt, m',
        l, limit, ?_, hroom, ?_, hbytes.trans hstream, hother⟩
      · rw [execute?_eq_some_iff]
        exact task.run_of_ended sink m (ofRoom room) hend hi
      · rw [← Array.length_toList, hbytes, List.length_take_of_le hfull]

/-- The second line does not fit behind the first one, and its channel gets five bytes of
    it. -/
theorem lines_cut_second :
    let task : Task := ⟨⟨#["1.", "print.", "2.", "print."]⟩, {}⟩
    let room : Bool → Option Nat := fun isStep => if isStep then none else some 15
    ¬ Fits room (task.events sink .fresh unlimited 4) ∧
      ∃ m l, task.execute? sink 4 .fresh (ofRoom room) =
          some (.error (.output 3 "failed to write whole buffer"), m, l) ∧
        l.out.bytes.size = 15 := by
  intro task room
  have hexceeds : ¬ Fits room (task.events sink .fresh unlimited 4) := by
    intro hfits
    exact absurd (hfits false 15 rfl) (by decide +kernel)
  have hresult : (task.execute? sink 4 .fresh (ofRoom room)).map (·.1) =
      some (.error (.output 3 "failed to write whole buffer")) := by decide +kernel
  obtain ⟨_, e, _, _, _, _, _, _, _, _, _, _, _, m, l, limit, hend, hroom, hsize, _⟩ :=
    (lines_cut task .fresh room 4).2.2 hexceeds
  refine ⟨hexceeds, m, l, ?_, ?_⟩
  · rw [hend] at hresult ⊢
    exact congrArg some (Prod.ext (Option.some.inj hresult) rfl)
  · cases hkind : e.isStep with
    | true =>
      rw [hkind] at hroom
      cases hroom
    | false =>
      rw [hkind] at hroom hsize
      cases hroom
      exact hsize

end Task

end DequeMachine

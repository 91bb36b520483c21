/-
  DequeMachine/Proofs/Run/Cut.lean
  ================================
  **A refused event cuts a run.**

  A run with some sink is put beside a run of the same task in which everything is
  accepted.  What the second run shows is offered to the first sink, event by event
  (`Sink.offerAll`).  As long as that sink accepts, the runs are at the same place
  (`run_of_accepted`); with the first event that it refuses, its run has ended, and the
  fault names the instruction that the event came from (`exists_refusal`).

  One instruction may offer two events, its step and its own, so the comparison is made
  turn by turn, with all that a turn shows (`next_follows`).

  A sink that refuses by counting is the plainest case: it keeps as many events as it
  has counted, and they are the first ones (`refusal_cuts`).
-/
import DequeMachine.Proofs.Run.Trace

namespace DequeMachine

variable {σ φ : Type}

/-! ### Events one after another -/

namespace Reply

/-- The state that an answer leaves behind. -/
def state : Reply σ → σ
  | accepted s => s
  | refused _ s => s

/-- Go on with another answer, unless this one is a refusal. -/
def andThen (reply : Reply σ) (go : σ → Reply σ) : Reply σ :=
  match reply with
  | accepted s => go s
  | refused reason s => refused reason s

theorem andThen_andThen (reply : Reply σ) (go go' : σ → Reply σ) :
    (reply.andThen go).andThen go' = reply.andThen fun s => (go s).andThen go' := by
  cases reply <;> rfl

end Reply

namespace Sink

/-- The answer of a sink to a list of events, offered in turn up to the first refusal. -/
def offerAll (sink : Sink σ) (s : σ) : List Event → Reply σ
  | [] => .accepted s
  | e :: rest => (sink.offer s e).andThen fun t => sink.offerAll t rest

variable {sink : Sink σ} {s t : σ} {reason : String} {events more : List Event}

theorem offerAll_append :
    sink.offerAll s (events ++ more) =
      (sink.offerAll s events).andThen fun t => sink.offerAll t more := by
  induction events generalizing s with
  | nil => rfl
  | cons e rest ih => simp only [List.cons_append, offerAll, Reply.andThen_andThen, ih]

theorem offerAll_cons_of_accepted {e : Event} (h : sink.offer s e = .accepted t) :
    sink.offerAll s (e :: events) = sink.offerAll t events := by
  simp only [offerAll, h, Reply.andThen]

theorem offerAll_cons_of_refused {e : Event} (h : sink.offer s e = .refused reason t) :
    sink.offerAll s (e :: events) = .refused reason t := by
  simp only [offerAll, h, Reply.andThen]

theorem offerAll_append_of_accepted (h : sink.offerAll s events = .accepted t) :
    sink.offerAll s (events ++ more) = sink.offerAll t more := by
  simp only [offerAll_append, h, Reply.andThen]

theorem offerAll_append_of_refused (h : sink.offerAll s events = .refused reason t) :
    sink.offerAll s (events ++ more) = .refused reason t := by
  simp only [offerAll_append, h, Reply.andThen]

/-- The events up to a refusal are those that were accepted and the refused one. -/
theorem exists_refused (h : sink.offerAll s events = .refused reason t) :
    ∃ before e rest u, events = before ++ e :: rest ∧ sink.offerAll s before = .accepted u ∧
      sink.offer u e = .refused reason t := by
  induction events generalizing s with
  | nil => cases h
  | cons e rest ih =>
    cases hoffer : sink.offer s e with
    | accepted v =>
      rw [offerAll_cons_of_accepted hoffer] at h
      obtain ⟨before, e', rest', u, hevents, hbefore, hrefused⟩ := ih h
      refine ⟨e :: before, e', rest', u, ?_, ?_, hrefused⟩
      · rw [hevents, List.cons_append]
      · rw [offerAll_cons_of_accepted hoffer, hbefore]
    | refused reason' v =>
      rw [offerAll_cons_of_refused hoffer] at h
      cases h
      exact ⟨[], e, rest, s, rfl, rfl, hoffer⟩

end Sink

/-! ### Turn by turn -/

/-- A run follows another one, after an answer to what the other one has shown in a turn:
    if all was accepted it is at the same place, and if not it has ended with the fault. -/
inductive Run.Follows (index : Nat) : Reply σ → Run σ → Run φ → Prop where
  | same {s : σ} {a : Run σ} {b : Run φ} (h : Run.Alike (fun t _ => t = s) a b) :
      Follows index (.accepted s) a b
  | cut {reason : String} {s : σ} {m : Machine} {b : Run φ} :
      Follows index (.refused reason s) (.ended (.error (.output index reason)) m s) b

namespace Task

section Follow

variable (task : Task) (sink : Sink σ) {free : Sink φ} {good : φ → Prop}
  (haccepts : free.Accepts good)
include haccepts

theorem settle_follows {effect : Effect} {index : Nat} {s : σ} {f : φ} (hgood : good f)
    (hindex : ∀ e accepted refused, effect = .offer e accepted refused → refused.index = index) :
    Run.Follows index (sink.offerAll s effect.event?.toList) (settle sink effect s)
      (settle free effect f) := by
  cases effect with
  | next m => exact .same (.going rfl)
  | fail fault m => exact .same (.ended rfl)
  | offer e accepted refused =>
    obtain ⟨f', haccept, _⟩ := haccepts f e hgood
    obtain rfl := hindex e accepted refused rfl
    simp only [Effect.event?, Option.toList_some, settle, offer, haccept]
    cases hoffer : sink.offer s e with
    | accepted t =>
      rw [Sink.offerAll_cons_of_accepted hoffer]
      exact .same (.going rfl)
    | refused reason t =>
      rw [Sink.offerAll_cons_of_refused hoffer]
      exact .cut

theorem carryOut_follows (token : String) (m : Machine) {s : σ} {f : φ} (hgood : good f) :
    Run.Follows m.index
      (sink.offerAll s ((task.instruction m token).shows m.deque).toList)
      (task.carryOut sink token m s) (task.carryOut free token m f) := by
  rw [← Machine.event?_exec task.program.size]
  apply settle_follows sink haccepts hgood
  intro e accepted refused h
  exact Machine.index_of_refused h

/-- **One turn follows another** as the sink answers what it shows. -/
theorem next_follows {a : Run σ} {b : Run φ} {s : σ} (h : Run.Alike (fun t _ => t = s) a b)
    (hgood : good b.state) :
    Run.Follows a.machine.index (sink.offerAll s (task.shown b)) (task.next sink a)
      (task.next free b) := by
  rcases hbegin : task.beginning? b with _ | ⟨m, token⟩
  · rw [task.shown_eq_nil hbegin]
    exact .same (task.next_alike_of_beginning?_eq_none h ((task.beginning?_alike h).trans hbegin))
  · obtain ⟨⟨f, rfl⟩, htoken, hlimit⟩ := beginning?_eq_some_iff.mp hbegin
    cases h with
    | @going _ s' _ h =>
      subst h
      rw [next_going sink s' htoken hlimit, next_going free f htoken hlimit]
      simp only [shown, hbegin, begin]
      have hcarry : ∀ t g, good g →
          Run.Follows m.index (sink.offerAll t ((task.instruction m token).shows m.deque).toList)
            (task.carryOut sink token { m with steps := m.steps + 1 } t)
            (task.carryOut free token { m with steps := m.steps + 1 } g) := by
        intro t g hgood
        exact task.carryOut_follows sink haccepts token { m with steps := m.steps + 1 } hgood
      by_cases htrace : task.config.trace = true
      · obtain ⟨f', haccept, hgood'⟩ := haccepts f (.step m.index token m.deque.toList) hgood
        simp only [if_pos htrace, offer, haccept]
        cases hoffer : sink.offer s' (.step m.index token m.deque.toList) with
        | accepted t =>
          rw [Sink.offerAll_cons_of_accepted hoffer]
          exact hcarry t f' hgood'
        | refused reason t =>
          rw [Sink.offerAll_cons_of_refused hoffer]
          exact .cut
      · simp only [if_neg htrace]
        exact hcarry s' f hgood

end Follow

/-! ### From the start -/

section Runs

variable (task : Task) (sink : Sink σ) {free : Sink φ} {good : φ → Prop}
  (haccepts : free.Accepts good) (m : Machine) {f : φ} (hf : good f) {s t : σ}
include haccepts hf

/-- **As long as everything is accepted, the runs are at the same place.** -/
theorem run_of_accepted {n : Nat} (h : sink.offerAll s (task.events free m f n) = .accepted t) :
    Run.Alike (fun s' _ => s' = t) (task.run sink m s n) (task.run free m f n) := by
  induction n generalizing t with
  | zero =>
    rw [events_eq_flatMap _ haccepts m hf] at h
    cases h
    rw [run_zero, run_zero]
    exact task.start_alike m rfl
  | succ n ih =>
    rw [events_succ _ haccepts m hf] at h
    cases hbefore : sink.offerAll s (task.events free m f n) with
    | accepted u =>
      rw [Sink.offerAll_append_of_accepted hbefore] at h
      have hfollows := task.next_follows sink haccepts (ih hbefore) (task.good_run haccepts m hf n)
      rw [h] at hfollows
      rw [run_succ, run_succ]
      cases hfollows with
      | same h => exact h
    | refused reason u =>
      rw [Sink.offerAll_append_of_refused hbefore] at h
      cases h

/-- **With the first refusal the run has ended,** in the turn that offered the event and
    with the index of its instruction. -/
theorem exists_refusal {n : Nat} {reason : String}
    (h : sink.offerAll s (task.events free m f n) = .refused reason t) :
    ∃ before e rest u, task.events free m f n = before ++ e :: rest ∧
      sink.offerAll s before = .accepted u ∧ sink.offer u e = .refused reason t ∧
      ∃ i < n, ∃ start token, task.beginning? (task.run free m f i) = some (start, token) ∧
        (task.events free m f i).length ≤ before.length ∧
        before.length < (task.events free m f (i + 1)).length ∧
        ∃ m', task.run sink m s (i + 1) = .ended (.error (.output start.index reason)) m' t := by
  -- by turns: what an earlier turn refused stays refused, and up to the first refusal the
  -- runs are at the same place, so that one turn follows the other
  induction n with
  | zero =>
    rw [events_eq_flatMap _ haccepts m hf] at h
    cases h
  | succ n ih =>
    have hsucc := task.events_succ haccepts m hf n
    cases hearlier : sink.offerAll s (task.events free m f n) with
    | refused reason' v =>
      rw [hsucc, Sink.offerAll_append_of_refused hearlier] at h
      cases h
      obtain ⟨before, e, rest, u, hevents, hbefore, hrefused, i, hi, hturn⟩ := ih hearlier
      refine ⟨before, e, rest ++ task.shown (task.run free m f n), u, ?_, hbefore, hrefused, i,
        Nat.lt_succ_of_lt hi, hturn⟩
      rw [hsucc, hevents, List.append_assoc, List.cons_append]
    | accepted v =>
      have halike := task.run_of_accepted sink haccepts m hf hearlier
      have hfollows := task.next_follows sink haccepts halike (task.good_run haccepts m hf n)
      rw [hsucc, Sink.offerAll_append_of_accepted hearlier] at h
      obtain ⟨front, e, rest, u, hshown, hfront, hrefused⟩ := Sink.exists_refused h
      rcases hbegin : task.beginning? (task.run free m f n) with _ | ⟨start, token⟩
      · -- a turn that begins no instruction shows nothing that could be refused
        rw [task.shown_eq_nil hbegin] at hshown
        exact absurd hshown.symm (by simp)
      · obtain ⟨⟨w, hgoing⟩, _, _⟩ :=
          beginning?_eq_some_iff.mp ((task.beginning?_alike halike).trans hbegin)
        have hevents : task.events free m f (n + 1) =
            (task.events free m f n ++ front) ++ e :: rest := by
          rw [hsucc, hshown, List.append_assoc]
        refine ⟨task.events free m f n ++ front, e, rest, u, hevents, ?_, hrefused, n,
          Nat.lt_succ_self n, start, token, hbegin, ?_, ?_, ?_⟩
        · rw [Sink.offerAll_append_of_accepted hearlier, hfront]
        · simp
        · simp [hevents]
        · rw [h, ← run_succ, ← run_succ, hgoing] at hfollows
          generalize task.run sink m s (n + 1) = a at hfollows
          cases hfollows with
          | cut => exact ⟨_, rfl⟩

end Runs

end Task

/-! ### Refusing by number -/

namespace Sink

/-- From a state on, a sink accepts so many events, whatever they are, and refuses the one
    after them for a reason. -/
def RefusesAfter (sink : Sink σ) (reason : String) : Nat → σ → Prop
  | 0, s => ∀ e, ∃ t, sink.offer s e = .refused reason t
  | k + 1, s => ∀ e, ∃ t, sink.offer s e = .accepted t ∧ sink.RefusesAfter reason k t

variable {sink : Sink σ} {reason : String} {k : Nat} {s : σ}

theorem RefusesAfter.accepts (h : sink.RefusesAfter reason k s) {events : List Event}
    (hle : events.length ≤ k) : ∃ t, sink.offerAll s events = .accepted t := by
  induction events generalizing k s with
  | nil => exact ⟨s, rfl⟩
  | cons e rest ih =>
    cases k with
    | zero => cases hle
    | succ k =>
      obtain ⟨t, hoffer, ht⟩ := h e
      rw [offerAll_cons_of_accepted hoffer]
      exact ih ht (Nat.le_of_succ_le_succ hle)

theorem RefusesAfter.refuses (h : sink.RefusesAfter reason k s) {events : List Event}
    (hlt : k < events.length) : ∃ t, sink.offerAll s events = .refused reason t := by
  induction events generalizing k s with
  | nil => cases hlt
  | cons e rest ih =>
    cases k with
    | zero =>
      obtain ⟨t, hoffer⟩ := h e
      exact ⟨t, offerAll_cons_of_refused hoffer⟩
    | succ k =>
      obtain ⟨t, hoffer, ht⟩ := h e
      rw [offerAll_cons_of_accepted hoffer]
      exact ih ht (Nat.lt_of_succ_lt_succ hlt)

/-- The event that is refused is the one with the sink's number. -/
theorem RefusesAfter.length_eq (h : sink.RefusesAfter reason k s) {before : List Event}
    {e : Event} {t u : σ} {reason' : String} (hbefore : sink.offerAll s before = .accepted u)
    (hrefused : sink.offer u e = .refused reason' t) : before.length = k := by
  apply Nat.le_antisymm
  · apply Nat.le_of_not_lt
    intro hlt
    obtain ⟨v, hearly⟩ := h.refuses hlt
    rw [hbefore] at hearly
    cases hearly
  · apply Nat.le_of_not_lt
    intro hlt
    have hle : (before ++ [e]).length ≤ k := by
      rw [List.length_append]
      exact hlt
    obtain ⟨v, hlate⟩ := h.accepts hle
    rw [offerAll_append_of_accepted hbefore, offerAll_cons_of_refused hrefused] at hlate
    cases hlate

/-- Of the events that are offered, the first ones are kept. -/
theorem RefusesAfter.record_eq (h : sink.RefusesAfter reason k s) (record events : List Event) :
    (sink.recorded.offerAll (s, record) events).state.2 = record ++ events.take k := by
  induction events generalizing k s record with
  | nil => simp [offerAll, Reply.state]
  | cons e rest ih =>
    cases k with
    | zero =>
      obtain ⟨t, hoffer⟩ := h e
      have hrecorded : sink.recorded.offer (s, record) e = .refused reason (t, record) := by
        simp only [Sink.recorded, hoffer]
      rw [offerAll_cons_of_refused hrecorded]
      simp [Reply.state]
    | succ k =>
      obtain ⟨t, hoffer, ht⟩ := h e
      have hrecorded : sink.recorded.offer (s, record) e = .accepted (t, record ++ [e]) := by
        simp only [Sink.recorded, hoffer]
      rw [offerAll_cons_of_accepted hrecorded, ih ht]
      simp

end Sink

/-- The journal that refuses by number counts on from what was offered to it. -/
theorem Journal.sinkRefusing_refusesAfter (j : Journal) (k : Nat) (reason : String) :
    (sinkRefusing (j.offered + k) reason).RefusesAfter reason k j := by
  induction k generalizing j with
  | zero =>
    intro e
    exact ⟨j.skip, if_pos rfl⟩
  | succ k ih =>
    intro e
    have hnext : (j.keep e).offered + k = j.offered + (k + 1) := by
      simp only [keep]
      omega
    exact ⟨j.keep e, if_neg (by omega), hnext ▸ ih (j.keep e)⟩

namespace Task

variable (task : Task) {sink : Sink σ} {free : Sink φ} {good : φ → Prop}

/-- A sink that refuses by number keeps the first events of the run that it cuts. -/
theorem events_eq_take (haccepts : free.Accepts good) (m : Machine) {f : φ} (hf : good f)
    {k : Nat} {reason : String} {s : σ} (hrefuses : sink.RefusesAfter reason k s) (n : Nat) :
    task.events sink m s n = (task.events free m f n).take k := by
  have hrecord := hrefuses.record_eq [] (task.events free m f n)
  rw [List.nil_append] at hrecord
  cases hall : sink.recorded.offerAll (s, []) (task.events free m f n) with
  | accepted t =>
    have halike := task.run_of_accepted sink.recorded haccepts m hf hall
    rw [events, halike.state_rel, ← hrecord, hall]
    rfl
  | refused reason' t =>
    obtain ⟨_, _, _, _, _, _, _, i, hi, _, _, _, _, _, m', hend⟩ :=
      task.exists_refusal sink.recorded haccepts m hf hall
    rw [events, task.run_of_ended sink.recorded m (s, []) hend hi, ← hrecord, hall]
    rfl

/-- **A refusing sink cuts the run exactly at the refused event.**  If the run in which
    everything is accepted shows no more events than the sink lets pass, it comes to the
    same result.  Otherwise the run ends with the fault of the instruction that offered the
    event with the sink's number.  In any case the events that were kept are the first ones. -/
theorem refusal_cuts (haccepts : free.Accepts good) (m : Machine) {f : φ} (hf : good f)
    {k : Nat} {reason : String} {s : σ} (hrefuses : sink.RefusesAfter reason k s) (n : Nat) :
    task.events sink m s n = (task.events free m f n).take k ∧
      ((task.events free m f n).length ≤ k →
        (task.execute? sink n m s).map (fun (result, m, _) => (result, m)) =
          (task.execute? free n m f).map (fun (result, m, _) => (result, m))) ∧
      (k < (task.events free m f n).length →
        ∃ i < n, ∃ start token,
          task.beginning? (task.run free m f i) = some (start, token) ∧
          (task.events free m f i).length ≤ k ∧ k < (task.events free m f (i + 1)).length ∧
          ∃ m' t, task.execute? sink n m s =
            some (.error (.output start.index reason), m', t)) := by
  refine ⟨task.events_eq_take haccepts m hf hrefuses n, ?within, ?past⟩
  case within =>
    intro hle
    obtain ⟨t, hall⟩ := hrefuses.accepts hle
    exact execute?_alike _ (task.run_of_accepted sink haccepts m hf hall) fun _ _ _ _ _ => rfl
  case past =>
    intro hlt
    obtain ⟨t, hall⟩ := hrefuses.refuses hlt
    obtain ⟨before, e, rest, u, _, hbefore, hrefused, i, hi, start, token, hbegin, hle, hlater,
      m', hend⟩ := task.exists_refusal sink haccepts m hf hall
    have hnumber : before.length = k := hrefuses.length_eq hbefore hrefused
    refine ⟨i, hi, start, token, hbegin, hnumber ▸ hle, hnumber ▸ hlater, m', t, ?_⟩
    rw [execute?_eq_some_iff]
    exact task.run_of_ended sink m s hend hi

/-- A journal that refuses the event with number two ends this run in its second
    instruction, which is shown and cannot print. -/
theorem refusal_cuts_journal :
    let task : Task := ⟨⟨#["1.", "print.", "exit."]⟩, { trace := true }⟩
    let sink := Journal.sinkRefusing 2 "closed"
    sink.RefusesAfter "closed" 2 .empty ∧
      task.events sink .fresh .empty 3 =
        [.step 0 "1." [], .step 1 "print." [.number (.ofNat 1)]] ∧
      ∃ m j, task.execute? sink 3 .fresh .empty = some (.error (.output 1 "closed"), m, j) := by
  intro task sink
  have haccepts : Journal.sink.Accepts (fun _ => True) := fun _ _ _ => ⟨_, rfl, trivial⟩
  have hrefuses : sink.RefusesAfter "closed" 2 .empty :=
    Journal.sinkRefusing_refusesAfter .empty 2 "closed"
  obtain ⟨hevents, _, hpast⟩ := refusal_cuts task haccepts .fresh trivial hrefuses 3
  have hshown : task.events Journal.sink .fresh .empty 3 =
      [.step 0 "1." [], .step 1 "print." [.number (.ofNat 1)], .print (.number (.ofNat 1)),
        .step 2 "exit." [], .exit []] := by decide +kernel
  refine ⟨hrefuses, by rw [hevents, hshown]; rfl, ?_⟩
  obtain ⟨i, hi, before, token, hbegin, hbefore, hturn, m, j, hend⟩ :=
    hpast (by rw [hshown]; decide)
  have hsecond : i = 1 := by
    rcases i with _ | _ | _ | i
    · exact absurd hturn (by decide +kernel)
    · rfl
    · exact absurd hbefore (by decide +kernel)
    · omega
  have hindex : (task.beginning? (task.run Journal.sink .fresh .empty 1)).map (·.1.index) =
      some 1 := by decide +kernel
  subst hsecond
  rw [hbegin] at hindex
  exact ⟨m, j, Option.some.inj hindex ▸ hend⟩

end Task

end DequeMachine

import Avr.Proofs.Clock.Appointments

/-!
Contract: periodic events keep exact time.

Owns:
- a periodic event fires once at the end of every period since it was scheduled, however the clock
  is advanced and whatever regular events are scheduled or cancelled besides it;
- an event that is cancelled between two advances fires no more, and the others fire as if it had
  not been cancelled;
- every advance comes to its end.

The events may do anything but touch the clock; what else they change is not looked at.
-/

namespace Avr.Machine

open Avr.Time

variable {World : Type} {env : Environment World} {m : Machine World}
  {appointments before after : List (Appointment World)}

theorem selected_eq_ofKind (test : Event → Bool) (q : DeltaQueue Event) :
    q.selected test = ofKind test q.agenda.entries := rfl

theorem sorted_entries (m : Machine World) : Sorted m.clock.queue.agenda.entries :=
  DeltaQueue.timeline_pairwise _ _

theorem ahead_entries (m : Machine World) :
    ∀ entry ∈ m.clock.queue.agenda.entries, m.cycles ≤ entry.time :=
  fun _ member => DeltaQueue.le_time_of_mem_timeline member

/-- The events of one kind keep a calendar of their own. -/
theorem Orderly.calendarOf (orderly : Orderly env m) (proper : ∀ a ∈ appointments, a.Proper env)
    (test : Event → Bool) :
    Calendar test appointments m.cycles (m.clock.queue.selected test)
      (ofKind test (meetAll env appointments m).1)
      ((meetAll env appointments m).2.clock.queue.selected test) :=
  (orderly.calendar proper).2.2.select test (sorted_entries m) (ahead_entries m)

theorem selected_eq_nil_iff {event : Event} :
    m.clock.queue.selected (fun other => other = event) = [] ↔ m.Queued (· ≠ event) := by
  simp [DeltaQueue.selected, Queued]

/-- An event that is not queued does not fire unless it is scheduled. -/
theorem Orderly.unscheduled (orderly : Orderly env m) (proper : ∀ a ∈ appointments, a.Proper env)
    {event : Event} (absent : m.Queued (· ≠ event))
    (unscheduled : ∀ a ∈ appointments, a.scheduled? ≠ some event) :
    ofKind (fun other => other = event) (meetAll env appointments m).1 = [] ∧
      (meetAll env appointments m).2.Queued (· ≠ event) := by
  have calendar := orderly.calendarOf proper fun other => other = event
  rw [selected_eq_nil_iff.mpr absent] at calendar
  obtain ⟨unfired, unqueued⟩ := (calendar.elapsed (by simp) unscheduled (.inl rfl)).of_nil
  exact ⟨unfired, selected_eq_nil_iff.mp unqueued⟩

/-- A periodic event that is scheduled now fires at the end of every period. -/
theorem Orderly.periodic (orderly : Orderly env m) {handle : Handle} {event : Event} {period : Nat}
    (regular : Regular env (.periodic handle event period))
    (proper : ∀ a ∈ appointments, a.Proper env)
    (fresh : m.Queued (· ≠ .periodic handle event period))
    (unscheduled : ∀ a ∈ appointments, a.scheduled? ≠ some (.periodic handle event period))
    (uncancelled : ∀ a ∈ appointments, a.cancelled? ≠ some (.periodic handle event period)) :
    let run := meetAll env appointments (schedule env (.periodic handle event period) period m).2
    ofKind (fun other => other = .periodic handle event period) run.1 =
      (List.range ((run.2.cycles - m.cycles) / period)).map
        (firingAt m.cycles handle event period) := by
  obtain ⟨nextOrderly, same, entered⟩ := orderly.scheduled regular period
  generalize (schedule env (.periodic handle event period) period m).2 = next at *
  have alone : next.clock.queue.selected (fun other => other = .periodic handle event period) =
      [firingAt m.cycles handle event period 0] := by
    have none := selected_eq_nil_iff.mpr fresh
    rw [selected_eq_ofKind] at none ⊢
    rw [entered, ofKind_enter (sorted_entries m), none]
    simp [enterKind, enter, firingAt]
  have later : m.cycles < m.cycles + (0 + 1) * period := by
    have positive : 0 < period := regular.1
    omega
  have passes := (nextOrderly.calendar proper).2.1
  have calendar := nextOrderly.calendarOf proper fun other => other = .periodic handle event period
  rw [alone, same] at calendar
  have elapsed := calendar.elapsed (by simpa [firingAt] using later) unscheduled (.inr uncancelled)
  have fired := (elapsed.periodic (by omega)).1
  rw [← same, ← passes, same] at fired
  exact fired

theorem forall_mem_append_cons {P : Appointment World → Prop} {appointment : Appointment World} :
    (∀ a ∈ before ++ appointment :: after, P a) ↔
      (∀ a ∈ before, P a) ∧ P appointment ∧ ∀ a ∈ after, P a := by
  rw [List.forall_mem_append, List.forall_mem_cons]

/-- What other events fire does not depend on whether an event is cancelled. -/
theorem Orderly.without_cancel (orderly : Orderly env m) {event : Event}
    (proper : ∀ a ∈ before ++ .cancel event :: after, a.Proper env) (test : Event → Bool)
    (other : test event = false) :
    ofKind test (meetAll env (before ++ .cancel event :: after) m).1 =
      ofKind test (meetAll env (before ++ after) m).1 := by
  obtain ⟨beforeProper, -, afterProper⟩ := forall_mem_append_cons.mp proper
  have others : ∀ a ∈ before ++ after, a.Proper env :=
    List.forall_mem_append.mpr ⟨beforeProper, afterProper⟩
  have calendar := orderly.calendarOf proper test
  exact ((calendar.without_cancel other).deterministic (orderly.calendarOf others test)).1

/-- Regular events keep exact time. Every advance comes to its end, with a batch in each of its
cycles at most; the clock moves by what it is advanced, and all firings are in order of time. A
periodic event that is scheduled at some cycle, and not again, has fired as often as whole periods
have passed, each time at the end of one. One that is cancelled fires no more, and the others fire
as they would have done anyway. -/
theorem periodic_events_keep_exact_time (orderly : Orderly env m)
    (proper : ∀ a ∈ appointments, a.Proper env) :
    let run := meetAll env appointments m
    (∀ before cycles after, appointments = before ++ .wait cycles :: after →
      ∀ bound, cycles + 2 ≤ bound →
        (deliver env bound ((meetAll env before m).2.grant cycles)).2.CaughtUp) ∧
    run.2.cycles = m.cycles + duration appointments ∧
    Sorted run.1 ∧
    (∀ before handle event period after,
      appointments = before ++ .every handle event period :: after →
      let start := (meetAll env before m).2.cycles
      let periodic := Event.periodic handle event (max period 1)
      m.Queued (· ≠ periodic) → (∀ a ∈ before ++ after, a.scheduled? ≠ some periodic) →
      (∀ a ∈ after, a.cancelled? ≠ some periodic) →
        run.1.filter (fun entry => entry.event = periodic) =
          (List.range ((run.2.cycles - start) / max period 1)).map fun count =>
            ⟨start + (count + 1) * max period 1, periodic⟩) ∧
    ∀ before event after, appointments = before ++ .cancel event :: after →
      ((∀ a ∈ after, a.scheduled? ≠ some event) →
        ∃ later, run.1 = (meetAll env before m).1 ++ later ∧ ∀ entry ∈ later, entry.event ≠ event) ∧
      run.1.filter (fun entry => entry.event ≠ event) =
        (meetAll env (before ++ after) m).1.filter fun entry => entry.event ≠ event := by
  intro run
  obtain ⟨-, passes, calendar⟩ := orderly.calendar proper
  refine ⟨?_, passes, ?_, ?_, ?_⟩
  · rintro before cycles after rfl bound enough
    obtain ⟨middle, -, -⟩ :=
      orderly.calendar (fun a member => proper a (List.mem_append_left _ member))
    refine caughtUp_deliver middle.tidy (middle.queued.grant cycles) ?_
    have granted : ((meetAll env before m).2.grant cycles).clock.queue.budget = 0 + cycles :=
      congrArg (· + cycles) middle.spent
    omega
  · exact (calendar.ordered (sorted_entries m) (ahead_entries m)).1
  · rintro before handle event period after rfl start periodic fresh unscheduled uncancelled
    obtain ⟨beforeProper, first, afterProper⟩ := forall_mem_append_cons.mp proper
    obtain ⟨beforeUnscheduled, afterUnscheduled⟩ := List.forall_mem_append.mp unscheduled
    obtain ⟨middle, -, -⟩ := orderly.calendar beforeProper
    obtain ⟨unfired, unqueued⟩ := orderly.unscheduled beforeProper fresh beforeUnscheduled
    have fired := middle.periodic ⟨Nat.le_max_right _ _, first⟩ afterProper unqueued
      afterUnscheduled uncancelled
    have whole : meetAll env _ m = _ :=
      meetAll_append before (.every handle event period :: after) m
    rw [show run = _ from whole]
    change ofKind (fun other => other = periodic) (_ ++ _) = _
    rw [ofKind_append, unfired]
    exact fired
  · rintro before event after rfl
    obtain ⟨beforeProper, -, afterProper⟩ := forall_mem_append_cons.mp proper
    have whole : meetAll env _ m = _ := meetAll_append before (.cancel event :: after) m
    refine ⟨fun unscheduled => ⟨_, congrArg Prod.fst whole, fun entry member same => ?_⟩,
      orderly.without_cancel proper (fun other => other ≠ event) (by simp)⟩
    obtain ⟨middle, -, -⟩ := orderly.calendar beforeProper
    obtain ⟨next, -, -⟩ := middle.brings (.cancel event) trivial
    have unfired := (next.unscheduled afterProper (Queued.unschedule fun _ _ => ne_or_eq _ _)
      unscheduled).1
    exact List.filter_eq_nil_iff.mp unfired entry member (decide_eq_true same)

/-- Nothing comes of any event. -/
def uneventful : Environment Unit :=
  { silence with patience := 20 }

theorem still_uneventful (handle : Handle) : Still uneventful (.outside handle) :=
  fun _ => rfl

/-- An event every three cycles, a single one, and one in every cycle that is cancelled. -/
def rounds : List (Appointment Unit) :=
  [.wait 2, .every ⟨0⟩ (.outside ⟨1⟩) 3, .once (.outside ⟨2⟩) 4, .wait 5,
    .every ⟨3⟩ (.outside ⟨4⟩) 0, .wait 2, .cancel (.periodic ⟨3⟩ (.outside ⟨4⟩) 1), .wait 4]

theorem proper_rounds : ∀ a ∈ rounds, a.Proper uneventful := by
  have patient (cycles : Nat) (few : cycles ≤ 18) :
      (Appointment.wait cycles).Proper uneventful := Nat.add_le_add_right few 2
  simp only [rounds, List.forall_mem_cons]
  exact ⟨patient 2 (by decide), still_uneventful _, still_uneventful _, patient 5 (by decide),
    still_uneventful _, patient 2 (by decide), trivial, patient 4 (by decide), nofun⟩

theorem orderly_new : Orderly uneventful (new smallPart ⟨.known 0, false, false⟩ ()) where
  tidy := trivial
  spent := rfl
  queued := nofun

theorem periodic_events_keep_exact_time_rounds :
    let run := meetAll uneventful rounds (new smallPart ⟨.known 0, false, false⟩ ())
    let third := Event.periodic ⟨0⟩ (.outside ⟨1⟩) 3
    let each := Event.periodic ⟨3⟩ (.outside ⟨4⟩) 1
    run.2.cycles = 13 ∧
      run.1 = [⟨5, third⟩, ⟨6, .outside ⟨2⟩⟩, ⟨8, third⟩, ⟨8, each⟩, ⟨9, each⟩, ⟨11, third⟩] ∧
      run.1.filter (fun entry => entry.event = third) =
        (List.range ((run.2.cycles - 2) / 3)).map (fun count => ⟨2 + (count + 1) * 3, third⟩) ∧
      ∃ later,
        run.1 = (meetAll uneventful (rounds.take 6)
          (new smallPart ⟨.known 0, false, false⟩ ())).1 ++ later ∧
        ∀ entry ∈ later, entry.event ≠ each := by
  intro run third each
  obtain ⟨-, -, -, periodic, cancelled⟩ := periodic_events_keep_exact_time orderly_new proper_rounds
  have fired := periodic [.wait 2] ⟨0⟩ (.outside ⟨1⟩) 3 (rounds.drop 2) rfl nofun
    (by decide) (by decide)
  obtain ⟨ended, -⟩ := cancelled (rounds.take 6) each (rounds.drop 7) rfl
  exact ⟨by decide +kernel, by decide +kernel, fired, ended (by decide)⟩

end Avr.Machine

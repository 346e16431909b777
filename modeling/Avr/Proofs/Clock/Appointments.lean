import Avr.Proofs.Clock.Regular

/-!
Contract: what is done with a clock, between its advances.

Owns:
- appointments: advances, events that are scheduled or cancelled in between, and whatever else is
  done there without touching the clock;
- what appointments bring to the events of one kind, told from their entries alone;
- the machine that keeps them does what they bring.

Advances may be split and mixed with the other appointments in any way.
-/

namespace Avr.Machine

open Avr.Time

variable {World : Type}

inductive Appointment (World : Type) where
  /-- Let time pass. -/
  | wait (cycles : Nat)
  | every (handle : Handle) (event : Event) (period : Nat)
  | once (event : Event) (delay : Nat)
  | cancel (event : Event)
  /-- Do something that has nothing to do with the clock. -/
  | aside (act : Action World Unit)

namespace Appointment

/-- The event that an appointment schedules. -/
def scheduled? : Appointment World → Option Event
  | .every handle event period => some (.periodic handle event (max period 1))
  | .once event _ => some event
  | .wait _ | .cancel _ | .aside _ => none

/-- The event that an appointment cancels. -/
def cancelled? : Appointment World → Option Event
  | .cancel event => some event
  | .wait _ | .every _ _ _ | .once _ _ | .aside _ => none

/-- The cycles that an appointment takes. -/
def cycles : Appointment World → Nat
  | .wait cycles => cycles
  | .every _ _ _ | .once _ _ | .cancel _ | .aside _ => 0

/-- What is scheduled is regular, what is done aside does not touch the clock, and there is the
patience for a batch in every cycle. -/
def Proper (env : Environment World) : Appointment World → Prop
  | .wait cycles => cycles + 2 ≤ env.patience
  | .every _ event _ => Still env event
  | .once event _ => Regular env event
  | .cancel _ => True
  | .aside act => ∀ m, (act m).2.clock = m.clock

/-- What an appointment fires, and the machine that it leaves. -/
def meet (env : Environment World) (m : Machine World) :
    Appointment World → List (Entry Event) × Machine World
  | .wait cycles => (firingsOf env cycles m, (advance env cycles m).2)
  | .every handle event period => ([], (schedulePeriodic env handle event period m).2)
  | .once event delay => ([], (schedule env event delay m).2)
  | .cancel event => ([], (unschedule env event m).2)
  | .aside act => ([], (act m).2)

end Appointment

/-- What appointments fire one after the other, and the machine that they leave. -/
def meetAll (env : Environment World) :
    List (Appointment World) → Machine World → List (Entry Event) × Machine World
  | [], m => ([], m)
  | first :: rest, m =>
    let (fired, next) := first.meet env m
    let (later, last) := meetAll env rest next
    (fired ++ later, last)

/-- The cycles that appointments take. -/
def duration (appointments : List (Appointment World)) : Nat :=
  (appointments.map Appointment.cycles).sum

variable {env : Environment World} {m : Machine World}

theorem meetAll_append (before after : List (Appointment World)) (m : Machine World) :
    meetAll env (before ++ after) m =
      ((meetAll env before m).1 ++ (meetAll env after (meetAll env before m).2).1,
        (meetAll env after (meetAll env before m).2).2) := by
  induction before generalizing m with
  | nil => rfl
  | cons first rest inductionHypothesis =>
      simp only [List.cons_append, meetAll, inductionHypothesis, List.append_assoc]

/-! ### In terms of entries -/

/-- Enter an event if it is of the given kind. -/
def enterKind (test : Event → Bool) (entry : Entry Event) (entries : List (Entry Event)) :
    List (Entry Event) :=
  if test entry.event then enter entry entries else entries

/-- Drop an event if it is of the given kind. -/
def dropKind (test : Event → Bool) (event : Event) (entries : List (Entry Event)) :
    List (Entry Event) :=
  if test event then ofKind (fun other => !decide (other = event)) entries else entries

theorem ofKind_enter {test : Event → Bool} {entry : Entry Event} {entries : List (Entry Event)}
    (sorted : Sorted entries) :
    ofKind test (enter entry entries) = enterKind test entry (ofKind test entries) := by
  rw [enterKind]
  rcases passes : test entry.event with _ | _
  · exact ofKind_enter_of_neg sorted passes
  · exact ofKind_enter_of_pos passes

theorem ofKind_drop {test : Event → Bool} (event : Event) (entries : List (Entry Event)) :
    ofKind test (ofKind (fun other => !decide (other = event)) entries) =
      dropKind test event (ofKind test entries) := by
  have swap : ofKind test (ofKind (fun other => !decide (other = event)) entries) =
      ofKind (fun other => !decide (other = event)) (ofKind test entries) := by
    rw [ofKind, ofKind, ofKind, ofKind, List.filter_filter, List.filter_filter]
    exact List.filter_congr fun _ _ => Bool.and_comm _ _
  rw [swap, dropKind]
  split
  · rfl
  · next fails =>
    refine List.filter_eq_self.mpr fun entry member => ?_
    have passes : test entry.event = true := (List.mem_filter.mp member).2
    have other : entry.event ≠ event := fun same => fails (same ▸ passes)
    simpa using other

/-- What an appointment at cycle `now` makes of the entries of one kind: some fire and others are
left. -/
def Appointment.Brings (test : Event → Bool) (now : Nat)
    (entries fired left : List (Entry Event)) : Appointment World → Prop
  | .wait cycles => Elapsed (now + cycles) entries fired left
  | .every handle event period =>
    fired = [] ∧ left = enterKind test
      ⟨now + max period 1, .periodic handle event (max period 1)⟩ entries
  | .once event delay => fired = [] ∧ left = enterKind test ⟨now + delay, event⟩ entries
  | .cancel event => fired = [] ∧ left = dropKind test event entries
  | .aside _ => fired = [] ∧ left = entries

/-- What appointments from cycle `now` on make of the entries of one kind. -/
inductive Calendar (test : Event → Bool) : List (Appointment World) → Nat →
    List (Entry Event) → List (Entry Event) → List (Entry Event) → Prop where
  | nil (now : Nat) (entries : List (Entry Event)) : Calendar test [] now entries [] entries
  | cons {first : Appointment World} {rest : List (Appointment World)} {now : Nat}
      {entries fired middle later left : List (Entry Event)}
      (brings : first.Brings test now entries fired middle)
      (calendar : Calendar test rest (now + first.cycles) middle later left) :
      Calendar test (first :: rest) now entries (fired ++ later) left

section Brings

variable {test : Event → Bool} {appointment : Appointment World} {now : Nat}
  {entries fired left : List (Entry Event)}

/-- The events of one kind have the same appointments as all. -/
theorem Appointment.Brings.select (test : Event → Bool) (sorted : Sorted entries)
    (brings : appointment.Brings (fun _ => true) now entries fired left) :
    appointment.Brings test now (ofKind test entries) (ofKind test fired) (ofKind test left) := by
  cases appointment with
  | wait cycles => exact Elapsed.select test brings sorted
  | every | once =>
      obtain ⟨rfl, rfl⟩ := brings
      exact ⟨rfl, ofKind_enter sorted⟩
  | cancel event =>
      obtain ⟨rfl, rfl⟩ := brings
      exact ⟨rfl, ofKind_drop event entries⟩
  | aside act =>
      obtain ⟨rfl, rfl⟩ := brings
      exact ⟨rfl, rfl⟩

theorem Appointment.Brings.deterministic {fired' left' : List (Entry Event)}
    (brings : appointment.Brings test now entries fired left)
    (brings' : appointment.Brings test now entries fired' left') :
    fired = fired' ∧ left = left' := by
  cases appointment with
  | wait cycles => exact Elapsed.deterministic brings brings'
  | every | once | cancel | aside =>
      exact ⟨brings.1.trans brings'.1.symm, brings.2.trans brings'.2.symm⟩

/-- Entries that lie ahead are still ahead after an appointment, and what fires does so in
between. -/
theorem Appointment.Brings.ordered (sorted : Sorted entries)
    (ahead : ∀ entry ∈ entries, now ≤ entry.time)
    (brings : appointment.Brings test now entries fired left) :
    Sorted fired ∧ (∀ entry ∈ fired, now ≤ entry.time ∧ entry.time ≤ now + appointment.cycles) ∧
      Sorted left ∧ ∀ entry ∈ left, now + appointment.cycles ≤ entry.time := by
  have entering (entry : Entry Event) (later : now ≤ entry.time) :
      Sorted (enterKind test entry entries) ∧
        ∀ other ∈ enterKind test entry entries, now ≤ other.time := by
    rw [enterKind]
    split
    · refine ⟨sorted.enter, fun other member => ?_⟩
      rcases mem_enter.mp member with rfl | inEntries
      · exact later
      · exact ahead other inEntries
    · exact ⟨sorted, ahead⟩
  cases appointment with
  | wait cycles =>
      have elapsed : Elapsed (now + cycles) entries fired left := brings
      obtain ⟨firedSorted, leftSorted⟩ := elapsed.sorted sorted
      exact ⟨firedSorted, elapsed.within ahead, leftSorted,
        fun entry member => Nat.le_of_lt (elapsed.later entry member)⟩
  | every | once =>
      obtain ⟨rfl, rfl⟩ := brings
      exact ⟨.nil, nofun, entering _ (Nat.le_add_right _ _)⟩
  | cancel event =>
      obtain ⟨rfl, rfl⟩ := brings
      rw [dropKind]
      split
      · exact ⟨.nil, nofun, sorted.sublist List.filter_sublist,
          fun entry member => ahead entry (List.mem_of_mem_filter member)⟩
      · exact ⟨.nil, nofun, sorted, ahead⟩
  | aside act =>
      obtain ⟨rfl, rfl⟩ := brings
      exact ⟨.nil, nofun, sorted, ahead⟩

end Brings

namespace Calendar

variable {test : Event → Bool} {appointments : List (Appointment World)} {now : Nat}
  {entries fired left : List (Entry Event)}

theorem deterministic {fired' left' : List (Entry Event)}
    (calendar : Calendar test appointments now entries fired left)
    (calendar' : Calendar test appointments now entries fired' left') :
    fired = fired' ∧ left = left' := by
  induction calendar generalizing fired' left' with
  | nil =>
      cases calendar'
      exact ⟨rfl, rfl⟩
  | cons brings rest inductionHypothesis =>
      obtain _ | ⟨brings', rest'⟩ := calendar'
      obtain ⟨rfl, rfl⟩ := brings.deterministic brings'
      obtain ⟨rfl, rfl⟩ := inductionHypothesis rest'
      exact ⟨rfl, rfl⟩

/-- All firings are in order of time. -/
theorem ordered (calendar : Calendar test appointments now entries fired left)
    (sorted : Sorted entries) (ahead : ∀ entry ∈ entries, now ≤ entry.time) :
    Sorted fired ∧ ∀ entry ∈ fired, now ≤ entry.time := by
  induction calendar with
  | nil => exact ⟨.nil, nofun⟩
  | cons brings rest inductionHypothesis =>
      obtain ⟨firedSorted, within, leftSorted, leftAhead⟩ := brings.ordered sorted ahead
      obtain ⟨laterSorted, laterAhead⟩ := inductionHypothesis leftSorted leftAhead
      refine ⟨List.pairwise_append.mpr ⟨firedSorted, laterSorted, fun entry member later isLater =>
        Nat.le_trans (within entry member).2 (laterAhead later isLater)⟩, fun entry member => ?_⟩
      rcases List.mem_append.mp member with inFired | inLater
      · exact (within entry inFired).1
      · exact Nat.le_trans (Nat.le_add_right _ _) (laterAhead entry inLater)

/-- Cancelling an event of another kind brings nothing. -/
theorem without_cancel {event : Event} (other : test event = false)
    {before after : List (Appointment World)}
    (calendar : Calendar test (before ++ .cancel event :: after) now entries fired left) :
    Calendar test (before ++ after) now entries fired left := by
  induction before generalizing now entries fired with
  | nil =>
      obtain _ | ⟨⟨rfl, rfl⟩, rest⟩ := calendar
      rw [dropKind, other] at rest
      exact rest
  | cons first before inductionHypothesis =>
      obtain _ | ⟨brings, rest⟩ := calendar
      exact .cons brings (inductionHypothesis rest)

end Calendar

/-- The events of one kind keep a calendar of their own. -/
theorem Calendar.select {appointments : List (Appointment World)} {now : Nat}
    {entries fired left : List (Entry Event)} (test : Event → Bool)
    (sorted : Sorted entries) (ahead : ∀ entry ∈ entries, now ≤ entry.time)
    (calendar : Calendar (fun _ => true) appointments now entries fired left) :
    Calendar test appointments now (ofKind test entries) (ofKind test fired)
      (ofKind test left) := by
  induction calendar with
  | nil => exact .nil _ _
  | cons brings rest inductionHypothesis =>
      obtain ⟨-, -, leftSorted, leftAhead⟩ := brings.ordered sorted ahead
      rw [ofKind_append]
      exact .cons (brings.select test sorted) (inductionHypothesis leftSorted leftAhead)

section Single

variable {event : Event} {appointment : Appointment World} {now : Nat}
  {entries fired left : List (Entry Event)}

/-- For an event that is neither scheduled nor cancelled, an appointment is the passing of time. -/
theorem Appointment.Brings.elapsed (later : ∀ entry ∈ entries, now < entry.time)
    (unscheduled : appointment.scheduled? ≠ some event)
    (uncancelled : entries = [] ∨ appointment.cancelled? ≠ some event)
    (brings : appointment.Brings (fun other => other = event) now entries fired left) :
    Elapsed (now + appointment.cycles) entries fired left := by
  have unentered (entry : Entry Event) (other : entry.event ≠ event) :
      enterKind (fun other => other = event) entry entries = entries := by
    rw [enterKind, if_neg (by simpa using other)]
  cases appointment with
  | wait cycles => exact brings
  | every handle event period | once event delay =>
      obtain ⟨rfl, rfl⟩ := brings
      rw [unentered _ fun same => unscheduled (congrArg some same)]
      exact .idle later
  | cancel dropped =>
      obtain ⟨rfl, rfl⟩ := brings
      have undropped : dropKind (fun other => other = event) dropped entries = entries := by
        rw [dropKind]
        rcases uncancelled with rfl | other
        · split <;> rfl
        · rw [if_neg (by simpa using fun same => other (congrArg some same))]
      rw [undropped]
      exact .idle later
  | aside act =>
      obtain ⟨rfl, rfl⟩ := brings
      exact .idle later

/-- However the waits are split, the event fires as if all the time passed at once. -/
theorem Calendar.elapsed {appointments : List (Appointment World)}
    (later : ∀ entry ∈ entries, now < entry.time)
    (unscheduled : ∀ a ∈ appointments, a.scheduled? ≠ some event)
    (uncancelled : entries = [] ∨ ∀ a ∈ appointments, a.cancelled? ≠ some event)
    (calendar : Calendar (fun other => other = event) appointments now entries fired left) :
    Elapsed (now + duration appointments) entries fired left := by
  induction calendar with
  | nil => exact .idle later
  | @cons first rest now entries fired middle _ _ brings calendar inductionHypothesis =>
      obtain ⟨firstUnscheduled, restUnscheduled⟩ := List.forall_mem_cons.mp unscheduled
      have one := brings.elapsed later firstUnscheduled
        (uncancelled.imp_right fun each => each first List.mem_cons_self)
      have restUncancelled : middle = [] ∨ ∀ a ∈ rest, a.cancelled? ≠ some event := by
        rcases uncancelled with rfl | each
        · exact .inl one.of_nil.2
        · exact .inr fun a member => each a (List.mem_cons_of_mem first member)
      have others := inductionHypothesis one.later restUnscheduled restUncancelled
      rw [Nat.add_assoc, show first.cycles + duration rest = duration (first :: rest) from
        (List.sum_cons ..).symm] at others
      exact one.trans (Nat.add_le_add_left (Nat.le_add_right _ _) now) others

end Single

/-! ### The machine -/

theorem Orderly.of_eq {next : Machine World} (orderly : Orderly env m)
    (same : next.clock.queue = m.clock.queue) : Orderly env next := by
  refine ⟨same ▸ orderly.tidy, same ▸ orderly.spent, ?_⟩
  rw [Queued, same]
  exact orderly.queued

/-- A regular event is scheduled. -/
theorem Orderly.scheduled (orderly : Orderly env m) {event : Event} (regular : Regular env event)
    (delay : Nat) :
    let next := (schedule env event delay m).2
    Orderly env next ∧ next.cycles = m.cycles ∧
      next.clock.queue.agenda.entries =
        enter ⟨m.cycles + delay, event⟩ m.clock.queue.agenda.entries := by
  have added : Orderly env (m.setQueue (m.clock.queue.add event delay)) :=
    ⟨DeltaQueue.tidy_insert event delay orderly.tidy, orderly.spent,
      orderly.queued.add regular delay⟩
  exact ⟨added.of_eq rfl, rfl,
    congrArg Agenda.entries (DeltaQueue.agenda_add orderly.tidy event delay)⟩

/-- A machine does what the appointment brings. -/
theorem Orderly.brings (orderly : Orderly env m) (appointment : Appointment World)
    (proper : appointment.Proper env) :
    let next := (appointment.meet env m).2
    Orderly env next ∧ next.cycles = m.cycles + appointment.cycles ∧
      appointment.Brings (fun _ => true) m.cycles m.clock.queue.agenda.entries
        (appointment.meet env m).1 next.clock.queue.agenda.entries := by
  cases appointment with
  | wait cycles =>
      obtain ⟨nextOrderly, passes, elapsed⟩ := orderly.advanced proper
      rw [passes] at elapsed
      exact ⟨nextOrderly, passes, elapsed⟩
  | every handle event period =>
      have regular : Regular env (.periodic handle event (max period 1)) :=
        ⟨Nat.le_max_right _ _, proper⟩
      obtain ⟨nextOrderly, same, entered⟩ := orderly.scheduled regular (max period 1)
      exact ⟨nextOrderly, same, rfl, entered⟩
  | once event delay =>
      obtain ⟨nextOrderly, same, entered⟩ := orderly.scheduled proper delay
      exact ⟨nextOrderly, same, rfl, entered⟩
  | cancel event =>
      have queue := queue_unschedule env event m
      have removed : Orderly env
          (m.setQueue (m.clock.queue.removeMatching fun queued => queued = event)) :=
        ⟨DeltaQueue.tidy_sweep _ 0 orderly.tidy, orderly.spent, orderly.queued.remove _⟩
      have entries := congrArg Agenda.entries
        (m.clock.queue.agenda_removeMatching fun queued => queued = event)
      exact ⟨removed.of_eq queue, (congrArg DeltaQueue.count queue :), rfl,
        (congrArg (fun q => q.agenda.entries) queue).trans entries⟩
  | aside act =>
      have clock := congrArg Clock.queue (proper m)
      exact ⟨orderly.of_eq clock, congrArg DeltaQueue.count clock, rfl,
        congrArg (fun q => q.agenda.entries) clock⟩

/-- A machine keeps its calendar. -/
theorem Orderly.calendar {appointments : List (Appointment World)} (orderly : Orderly env m)
    (proper : ∀ a ∈ appointments, a.Proper env) :
    let last := (meetAll env appointments m).2
    Orderly env last ∧ last.cycles = m.cycles + duration appointments ∧
      Calendar (fun _ => true) appointments m.cycles m.clock.queue.agenda.entries
        (meetAll env appointments m).1 last.clock.queue.agenda.entries := by
  induction appointments generalizing m with
  | nil => exact ⟨orderly, rfl, .nil _ _⟩
  | cons first rest inductionHypothesis =>
      obtain ⟨firstProper, restProper⟩ := List.forall_mem_cons.mp proper
      obtain ⟨nextOrderly, passes, brings⟩ := orderly.brings _ firstProper
      obtain ⟨lastOrderly, laterPasses, calendar⟩ := inductionHypothesis nextOrderly restProper
      rw [passes] at calendar
      refine ⟨lastOrderly, ?_, .cons brings calendar⟩
      exact (laterPasses.trans (congrArg (· + _) passes)).trans (Nat.add_assoc _ _ _)

end Avr.Machine

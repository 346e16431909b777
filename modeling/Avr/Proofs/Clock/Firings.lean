import Avr.Proofs.Machine.Slumber

/-!
Contract: what a clock fires while it advances.

Owns:
- the events that a delivery fires, each with the cycle in which it fires;
- machines on which only events of a given set are queued;
- deliveries that come to an end: more patience changes nothing.

Does not own: what an event does. One that lets time pass delivers on its own, and its deliveries
are listed on their own.
-/

namespace Avr

open Avr.Time

namespace Time.DeltaQueue

universe u

variable {α : Type u}

theorem events_timeline (start : Nat) (links : List (Link α)) :
    (timeline start links).map Entry.event = links.flatMap Link.events := by
  induction links generalizing start with
  | nil => rfl
  | cons link rest inductionHypothesis =>
      rw [timeline, List.map_append, List.map_map, inductionHypothesis, List.flatMap_cons]
      exact congrArg (· ++ _) (List.map_id _)

theorem mem_events_insert {event other : α} {cycles : Nat} {links : List (Link α)} :
    other ∈ (insert event cycles links).flatMap Link.events ↔
      other = event ∨ other ∈ links.flatMap Link.events := by
  induction links generalizing cycles with
  | nil => simp [insert]
  | cons link rest inductionHypothesis =>
      rw [insert]
      split
      · simp
      · split
        · simp [or_left_comm]
        · rw [List.flatMap_cons, List.mem_append, inductionHypothesis, List.flatMap_cons,
            List.mem_append, or_left_comm]

end Time.DeltaQueue

namespace Machine

variable {World : Type} (env : Environment World)

/-- Grant cycles, which a delivery then delivers. -/
def grant (m : Machine World) (cycles : Nat) : Machine World :=
  m.setQueue (m.clock.queue.advance cycles)

/-- Events that fire one after the other, each with its cycle. -/
def firedOf : List Event → Machine World → List (Entry Event)
  | [], _ => []
  | event :: rest, m => ⟨m.cycles, event⟩ :: firedOf rest (fire env event m).2

/-- What a delivery of at most `bound` batches fires. -/
def firings : (bound : Nat) → Machine World → List (Entry Event)
  | 0, _ => []
  | bound + 1, m =>
    match m.clock.queue.popDue.1 with
    | none => []
    | some batch =>
      let popped := m.setQueue m.clock.queue.popDue.2
      firedOf env batch popped ++ firings bound (batch.forM (fire env) popped).2

/-- What an advance fires. -/
def firingsOf (cycles : Nat) (m : Machine World) : List (Entry Event) :=
  firings env env.patience (m.grant cycles)

variable {env} {m : Machine World}

theorem advance_eq (cycles : Nat) (m : Machine World) :
    advance env cycles m = deliver env env.patience (m.grant cycles) := rfl

theorem forM_cons (event : Event) (rest : List Event) (m : Machine World) :
    (event :: rest).forM (fire env) m = rest.forM (fire env) (fire env event m).2 := rfl

/-! ### Batches that are due -/

theorem deliver_of_none (nothing : m.clock.queue.popDue.1 = none) (bound : Nat) :
    deliver env (bound + 1) m = ((), m.setQueue m.clock.queue.popDue.2) := by
  rw [deliver_succ, nothing]

theorem deliver_of_some {batch : List Event} (due : m.clock.queue.popDue.1 = some batch)
    (bound : Nat) :
    deliver env (bound + 1) m =
      deliver env bound (batch.forM (fire env) (m.setQueue m.clock.queue.popDue.2)).2 := by
  rw [deliver_succ, due]

theorem firings_of_none (nothing : m.clock.queue.popDue.1 = none) (bound : Nat) :
    firings env bound m = [] := by
  cases bound with
  | zero => rfl
  | succ bound => rw [firings, nothing]

theorem firings_of_some {batch : List Event} (due : m.clock.queue.popDue.1 = some batch)
    (bound : Nat) :
    firings env (bound + 1) m =
      firedOf env batch (m.setQueue m.clock.queue.popDue.2) ++
        firings env bound (batch.forM (fire env) (m.setQueue m.clock.queue.popDue.2)).2 := by
  rw [firings, due]

/-- What is fired depends on no more of a queue than what it hands out. -/
theorem firings_congr {queue queue' : DeltaQueue Event} (same : queue.popDue = queue'.popDue)
    (bound : Nat) :
    firings env bound (m.setQueue queue) = firings env bound (m.setQueue queue') := by
  have granted (queue : DeltaQueue Event) : (m.setQueue queue).clock.queue = queue := rfl
  have again (queue rest : DeltaQueue Event) :
      (m.setQueue queue).setQueue rest = m.setQueue rest := rfl
  cases bound with
  | zero => rfl
  | succ bound =>
      rw [firings, firings, granted, granted, same]
      simp only [again]

/-! ### Deliveries that end -/

theorem CaughtUp.setQueue (caughtUp : m.CaughtUp) : m.setQueue m.clock.queue.popDue.2 = m :=
  congrArg (fun popped => m.setQueue popped.2) caughtUp

/-- When nothing is due, the queue has caught up once it has delivered its budget. -/
theorem caughtUp_of_none (nothing : m.clock.queue.popDue.1 = none) :
    (m.setQueue m.clock.queue.popDue.2).CaughtUp := by
  have granted : (m.clock.queue.advance 0).popDue.1 = none := nothing
  have again := DeltaQueue.popDue_advance_add granted 0
  exact again.trans (Prod.ext nothing rfl)

/-- A delivery that has ended would not go on with more patience. -/
theorem deliver_of_caughtUp {bound more : Nat} (enough : bound ≤ more)
    (ended : (deliver env bound m).2.CaughtUp) : deliver env more m = deliver env bound m := by
  induction bound generalizing m more with
  | zero =>
      have caughtUp : m.CaughtUp := ended
      cases more with
      | zero => rfl
      | succ more =>
          rw [deliver_of_none (congrArg Prod.fst caughtUp), caughtUp.setQueue]
          rfl
  | succ bound inductionHypothesis =>
      obtain ⟨rest, rfl⟩ := Nat.exists_eq_add_of_lt enough
      rcases due : m.clock.queue.popDue.1 with _ | batch
      · rw [deliver_of_none due, deliver_of_none due]
      · rw [deliver_of_some due] at ended ⊢
        rw [deliver_of_some due]
        exact inductionHypothesis (Nat.le_add_right bound rest) ended

theorem firings_of_caughtUp {bound more : Nat} (enough : bound ≤ more)
    (ended : (deliver env bound m).2.CaughtUp) : firings env more m = firings env bound m := by
  induction bound generalizing m more with
  | zero => exact firings_of_none (congrArg Prod.fst ended) more
  | succ bound inductionHypothesis =>
      obtain ⟨rest, rfl⟩ := Nat.exists_eq_add_of_lt enough
      rcases due : m.clock.queue.popDue.1 with _ | batch
      · rw [firings_of_none due, firings_of_none due]
      · rw [deliver_of_some due] at ended
        rw [firings_of_some due, firings_of_some due,
          inductionHypothesis (Nat.le_add_right bound rest) ended]

/-! ### Sets of events -/

/-- Only events of the given set are queued. -/
def Queued (events : Event → Prop) (m : Machine World) : Prop :=
  ∀ entry ∈ m.clock.queue.agenda.entries, events entry.event

variable {events : Event → Prop}

theorem Queued.popDue (queued : m.Queued events) :
    (∀ event ∈ m.clock.queue.popDue.1.getD [], events event) ∧
      (m.setQueue m.clock.queue.popDue.2).Queued events := by
  have split := m.clock.queue.entries_popDue
  constructor
  · intro event member
    exact queued ⟨m.clock.queue.popDue.2.count, event⟩
      (split ▸ List.mem_append_left _ (List.mem_map_of_mem member))
  · exact fun entry member => queued entry (split ▸ List.mem_append_right _ member)

theorem Queued.popDue_some (queued : m.Queued events) {batch : List Event}
    (due : m.clock.queue.popDue.1 = some batch) : ∀ event ∈ batch, events event := by
  have all := queued.popDue.1
  rwa [due] at all

theorem Queued.grant (queued : m.Queued events) (cycles : Nat) : (m.grant cycles).Queued events :=
  queued

theorem queued_iff :
    m.Queued events ↔ ∀ event ∈ m.clock.queue.links.flatMap Link.events, events event := by
  rw [← DeltaQueue.events_timeline m.clock.queue.count, List.forall_mem_map]
  rfl

theorem Queued.add (queued : m.Queued events) {event : Event} (member : events event)
    (delay : Nat) : (m.setQueue (m.clock.queue.add event delay)).Queued events := by
  refine queued_iff.mpr fun other inQueue => ?_
  rcases DeltaQueue.mem_events_insert.mp inQueue with rfl | before
  · exact member
  · exact queued_iff.mp queued other before

theorem Queued.remove (queued : m.Queued events) (matching : Event → Bool) :
    (m.setQueue (m.clock.queue.removeMatching matching)).Queued events := by
  intro entry inQueue
  refine queued entry ?_
  rw [Machine.setQueue, DeltaQueue.agenda_removeMatching] at inQueue
  exact List.mem_of_mem_filter inQueue

theorem queue_unschedule (env : Environment World) (event : Event) (m : Machine World) :
    (unschedule env event m).2.clock.queue =
      m.clock.queue.removeMatching fun queued => queued = event := by
  have opened : unschedule env event m =
      ((do
        if 0 < m.clock.queue.countMatching fun queued => queued = event then
          note env (.unscheduled (m.clock.queue.countMatching fun queued => queued = event))
        return 0 < m.clock.queue.countMatching fun queued => queued = event :
          Action World Bool)
        (m.setQueue (m.clock.queue.removeMatching fun queued => queued = event))) := rfl
  rw [opened]
  split <;> rfl

/-- A cancelled event is not queued. -/
theorem Queued.unschedule {event : Event}
    (queued : m.Queued fun other => events other ∨ other = event) :
    (unschedule env event m).2.Queued events := by
  intro entry member
  rw [queue_unschedule, DeltaQueue.agenda_removeMatching] at member
  obtain ⟨before, other⟩ := List.mem_filter.mp member
  exact (queued entry before).resolve_right (by simpa using other)

/-- Firing events of a set queues none outside of it. -/
def ClosedUnder (env : Environment World) (events : Event → Prop) : Prop :=
  ∀ event, events event → Action.Respects (Keeps (Queued events)) (fire env event)

section Closed

variable (closed : ClosedUnder env events)
include closed

theorem ClosedUnder.fireAll {batch : List Event} (each : ∀ event ∈ batch, events event)
    (queued : m.Queued events) : (batch.forM (fire env) m).2.Queued events := by
  induction batch generalizing m with
  | nil => exact queued
  | cons event rest inductionHypothesis =>
      obtain ⟨first, others⟩ := List.forall_mem_cons.mp each
      exact inductionHypothesis others ((closed event first).related m queued)

theorem ClosedUnder.deliver (bound : Nat) (queued : m.Queued events) :
    (deliver env bound m).2.Queued events := by
  induction bound generalizing m with
  | zero => exact queued
  | succ bound inductionHypothesis =>
      rcases due : m.clock.queue.popDue.1 with _ | batch
      · rw [deliver_of_none due]
        exact queued.popDue.2
      · rw [deliver_of_some due]
        exact inductionHypothesis (closed.fireAll (queued.popDue_some due) queued.popDue.2)

end Closed

/-! ### The time that has been granted -/

/-- No time is granted. -/
def Timeless (m next : Machine World) : Prop :=
  next.clock.queue.agenda.horizon = m.clock.queue.agenda.horizon

instance : IsPreorder (Machine World) Timeless where
  refl _ := rfl
  trans _ _ _ first second := second.trans first

theorem timeless_popDue (m : Machine World) : Timeless m (m.setQueue m.clock.queue.popDue.2) :=
  DeltaQueue.horizon_perform .popDue m.clock.queue

theorem CaughtUp.cycles (caughtUp : m.CaughtUp) : m.cycles = m.clock.queue.agenda.horizon := by
  rw [DeltaQueue.agenda, caughtUp.budget]
  rfl

section Timeless

variable (timeless : ∀ event, events event → Action.Respects Timeless (fire env event))
include timeless

theorem timeless_fireAll {batch : List Event} (each : ∀ event ∈ batch, events event)
    (m : Machine World) : Timeless m (batch.forM (fire env) m).2 := by
  induction batch generalizing m with
  | nil => rfl
  | cons event rest inductionHypothesis =>
      obtain ⟨first, others⟩ := List.forall_mem_cons.mp each
      exact trans_of Timeless ((timeless event first).related m) (inductionHypothesis others _)

/-- A delivery delivers what has been granted before. -/
theorem timeless_deliver (closed : ClosedUnder env events) (bound : Nat)
    (queued : m.Queued events) : Timeless m (Machine.deliver env bound m).2 := by
  induction bound generalizing m with
  | zero => rfl
  | succ bound inductionHypothesis =>
      rcases due : m.clock.queue.popDue.1 with _ | batch
      · rw [deliver_of_none due]
        exact timeless_popDue m
      · rw [deliver_of_some due]
        have each := queued.popDue_some due
        exact trans_of Timeless (trans_of Timeless (timeless_popDue m)
          (timeless_fireAll timeless each _))
          (inductionHypothesis (closed.fireAll each queued.popDue.2))

/-- An advance that comes to its end lets the granted time pass. -/
theorem cycles_advance (closed : ClosedUnder env events) {cycles : Nat} (queued : m.Queued events)
    (ended : (advance env cycles m).2.CaughtUp) :
    (advance env cycles m).2.cycles = m.cycles + m.clock.queue.budget + cycles := by
  rw [ended.cycles, advance_eq, timeless_deliver timeless closed _ (queued.grant cycles)]
  exact (Nat.add_assoc _ _ _).symm

end Timeless

end Machine

end Avr

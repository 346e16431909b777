import Avr.Proofs.Clock.Firings

/-!
Contract: what becomes of an event that is cancelled while deliveries are in progress.

Owns:
- what is left to do of deliveries that are interrupted while one of their events fires;
- a cancelled event fires only as often as it has been handed out already;
- a periodic event that has been handed out schedules itself again, and goes on.

A cancellation takes an event off the queue. Batches that have been handed out are not on the queue,
so they still fire as a whole.
-/

namespace Avr.Machine

open Avr.Time

variable {World : Type} {env : Environment World} {m : Machine World}

/-- What is left to do of a delivery while one of its events fires: the rest of that firing, the
events of the batch that come after it, and the batches for which there is patience.

What is done between deliveries is a rest with nothing in hand. -/
structure Pending (World : Type) where
  rest : Action World Unit
  inHand : List Event
  bound : Nat

/-- Resume deliveries, from the innermost one outwards: what fires, and the machine that is left. -/
def resume (env : Environment World) :
    List (Pending World) → Machine World → List (Entry Event) × Machine World
  | [], m => ([], m)
  | innermost :: outer, m =>
    let rested := (innermost.rest m).2
    let fired := (innermost.inHand.forM (fire env) rested).2
    let (later, last) := resume env outer (deliver env innermost.bound fired).2
    (firedOf env innermost.inHand rested ++ firings env innermost.bound fired ++ later, last)

/-- An advance grants its cycles and then delivers, with nothing in hand. Once it is over, what is
left of the deliveries around it is resumed. -/
theorem resume_advance (cycles : Nat) (outer : List (Pending World)) (m : Machine World) :
    resume env (⟨modify fun m => m.grant cycles, [], env.patience⟩ :: outer) m =
      (firingsOf env cycles m ++ (resume env outer (advance env cycles m).2).1,
        (resume env outer (advance env cycles m).2).2) := rfl

theorem forM_append (before behind : List Event) (m : Machine World) :
    (before ++ behind).forM (fire env) m = behind.forM (fire env) (before.forM (fire env) m).2 := by
  induction before generalizing m with
  | nil => rfl
  | cons event rest inductionHypothesis => exact inductionHypothesis _

theorem firedOf_append (before behind : List Event) (m : Machine World) :
    firedOf env (before ++ behind) m =
      firedOf env before m ++ firedOf env behind (before.forM (fire env) m).2 := by
  induction before generalizing m with
  | nil => rfl
  | cons event rest inductionHypothesis =>
      exact congrArg (⟨m.cycles, event⟩ :: ·) (inductionHypothesis _)

/-- A delivery is interrupted while an event of its batch fires: after what interrupts it, the rest
is resumed. That may be a cancellation, or an advance with deliveries of its own. -/
theorem deliver_interrupted {α : Type} {before behind : List Event} {event : Event}
    {first rest : Action World Unit} {interruption : Action World α} {bound : Nat}
    (due : m.clock.queue.popDue.1 = some (before ++ event :: behind))
    (fires : fire env event = do first; let _ ← interruption; rest) :
    let popped := m.setQueue m.clock.queue.popDue.2
    let reached := (before.forM (fire env) popped).2
    let resumed := resume env [⟨rest, behind, bound⟩] (interruption (first reached).2).2
    firings env (bound + 1) m =
        firedOf env before popped ++ ⟨reached.cycles, event⟩ :: resumed.1 ∧
      (deliver env (bound + 1) m).2 = resumed.2 := by
  have fired (m : Machine World) :
      (fire env event m).2 = (rest (interruption (first m).2).2).2 := by
    rw [fires]
    rfl
  intro popped reached resumed
  constructor
  · rw [firings_of_some due, firedOf_append, firedOf, forM_append, forM_cons, fired]
    simp [resumed, resume, popped, reached]
  · rw [deliver_of_some due, forM_append, forM_cons, fired]
    rfl

/-! ### What fires -/

theorem events_firedOf (batch : List Event) (m : Machine World) :
    (firedOf env batch m).map Entry.event = batch := by
  induction batch generalizing m with
  | nil => rfl
  | cons event rest inductionHypothesis => exact congrArg (event :: ·) (inductionHypothesis _)

/-- Events that let no time pass fire in one cycle. -/
theorem time_of_mem_firedOf {batch : List Event}
    (instant : ∀ event ∈ batch, ∀ m, (fire env event m).2.cycles = m.cycles) :
    ∀ entry ∈ firedOf env batch m, entry.time = m.cycles := by
  induction batch generalizing m with
  | nil => nofun
  | cons event rest inductionHypothesis =>
      obtain ⟨first, others⟩ := List.forall_mem_cons.mp instant
      intro entry member
      rcases List.mem_cons.mp member with rfl | later
      · rfl
      · exact (inductionHypothesis others entry later).trans (first m)

section Cancelled

variable {event : Event} {events : Event → Prop} {P : Machine World → Prop}

/-- Only events of the set are queued, and the property holds. -/
def Holds (events : Event → Prop) (P : Machine World → Prop) (m : Machine World) : Prop :=
  m.Queued events ∧ P m

theorem Holds.fireAll {batch : List Event} (holds : m.Holds events P)
    (each : ∀ event ∈ batch, Action.Respects (Keeps (Holds events P)) (fire env event)) :
    (batch.forM (fire env) m).2.Holds events P := by
  induction batch generalizing m with
  | nil => exact holds
  | cons event rest inductionHypothesis =>
      obtain ⟨first, others⟩ := List.forall_mem_cons.mp each
      exact inductionHypothesis (first.related m holds) others

variable (aside : ∀ m queue, P m → P (setQueue m queue))
  (others : ∀ other, events other → Action.Respects (Keeps (Holds events P)) (fire env other))
include aside others

/-- A delivery hands out nothing but events of the set. -/
theorem Holds.deliver (bound : Nat) (holds : m.Holds events P) :
    (∀ entry ∈ firings env bound m, events entry.event) ∧
      (Machine.deliver env bound m).2.Holds events P := by
  induction bound generalizing m with
  | zero => exact ⟨nofun, holds⟩
  | succ bound inductionHypothesis =>
      have popped : (m.setQueue m.clock.queue.popDue.2).Holds events P :=
        ⟨holds.1.popDue.2, aside _ _ holds.2⟩
      rcases due : m.clock.queue.popDue.1 with _ | batch
      · rw [firings_of_none due, deliver_of_none due]
        exact ⟨nofun, popped⟩
      · rw [firings_of_some due, deliver_of_some due]
        have inSet := holds.1.popDue_some due
        obtain ⟨later, last⟩ := inductionHypothesis
          (popped.fireAll fun event member => others event (inSet event member))
        refine ⟨fun entry member => ?_, last⟩
        rcases List.mem_append.mp member with now | after
        · refine inSet entry.event ?_
          have fired : entry.event ∈
              (firedOf env batch (m.setQueue m.clock.queue.popDue.2)).map Entry.event :=
            List.mem_map_of_mem now
          rwa [events_firedOf] at fired
        · exact later entry after

variable (excluded : ¬ events event)
include excluded

/-- By induction on the deliveries: each fires what it has in hand, and then only what is queued. -/
theorem Holds.resume {pending : List (Pending World)} (holds : m.Holds events P)
    (own : event ∈ pending.flatMap Pending.inHand →
      Action.Respects (Keeps (Holds events P)) (fire env event))
    (inHand : ∀ other ∈ pending.flatMap Pending.inHand, events other ∨ other = event)
    (rests : ∀ delivery ∈ pending, Action.Respects (Keeps (Holds events P)) delivery.rest) :
    ((Machine.resume env pending m).1.map Entry.event).count event =
        (pending.flatMap Pending.inHand).count event ∧
      (Machine.resume env pending m).2.Holds events P := by
  induction pending generalizing m with
  | nil => exact ⟨rfl, holds⟩
  | cons innermost outer inductionHypothesis =>
      rw [List.flatMap_cons] at own inHand ⊢
      obtain ⟨hand, outerHands⟩ := List.forall_mem_append.mp inHand
      obtain ⟨rest, outerRests⟩ := List.forall_mem_cons.mp rests
      have fired := Holds.fireAll (rest.related m holds) fun other member => by
        rcases hand other member with inSet | rfl
        · exact others other inSet
        · exact own (List.mem_append_left _ member)
      -- Whatever the batch in hand has queued is of the set, and so is what is delivered after it.
      obtain ⟨due, delivered⟩ := Holds.deliver aside others innermost.bound fired
      obtain ⟨outerCount, last⟩ := inductionHypothesis delivered
        (fun has => own (List.mem_append_right _ has)) outerHands outerRests
      have undelivered : ((firings env innermost.bound _).map Entry.event).count event = 0 :=
        List.count_eq_zero.mpr fun member => by
          obtain ⟨entry, isEntry, rfl⟩ := List.mem_map.mp member
          exact excluded (due entry isEntry)
      refine ⟨?_, last⟩
      simp only [Machine.resume, List.map_append, List.count_append, events_firedOf, undelivered,
        outerCount, Nat.add_zero]

/-- What no delivery has in hand does not fire. -/
theorem Holds.unfired {pending : List (Pending World)} (holds : m.Holds events P)
    (free : event ∉ pending.flatMap Pending.inHand)
    (inHand : ∀ other ∈ pending.flatMap Pending.inHand, events other ∨ other = event)
    (rests : ∀ delivery ∈ pending, Action.Respects (Keeps (Holds events P)) delivery.rest) :
    ∀ entry ∈ (Machine.resume env pending m).1, entry.event ≠ event := by
  have counted := (Holds.resume aside others excluded holds (fun has => absurd has free) inHand
    rests).1
  rw [List.count_eq_zero.mpr free] at counted
  intro entry member same
  exact List.count_eq_zero.mp counted (same ▸ List.mem_map_of_mem member)

/-- An event that is cancelled at any moment fires from then on only as often as deliveries in
progress have it in hand: not at all if none has, and otherwise in the cycle of the cancellation, if
it is in the batch that is firing and nothing of that batch lets time pass.

The others are the events of a set, which queue only each other. If the event is in hand, it may not
schedule itself when it fires either. A property that they keep, besides what is queued, is kept:
one that tells how often the event has fired says that it does not fire in nested deliveries
either. -/
theorem cancelled_event_fires_only_from_hand {pending : List (Pending World)}
    (own : event ∈ pending.flatMap Pending.inHand →
      Action.Respects (Keeps (Holds events P)) (fire env event))
    (inHand : ∀ other ∈ pending.flatMap Pending.inHand, events other ∨ other = event)
    (rests : ∀ delivery ∈ pending, Action.Respects (Keeps (Holds events P)) delivery.rest)
    (queued : m.Queued fun other => events other ∨ other = event)
    (holds : P (unschedule env event m).2) :
    let resumed := resume env pending (unschedule env event m).2
    (event ∉ pending.flatMap Pending.inHand → ∀ entry ∈ resumed.1, entry.event ≠ event) ∧
      (resumed.1.map Entry.event).count event =
        (pending.flatMap Pending.inHand).count event ∧
      (∀ innermost outer, pending = innermost :: outer →
        event ∉ outer.flatMap Pending.inHand →
        (∀ m, (innermost.rest m).2.cycles = m.cycles) →
        (∀ other ∈ innermost.inHand, ∀ m, (fire env other m).2.cycles = m.cycles) →
          ∀ entry ∈ resumed.1, entry.event = event → entry.time = m.cycles) ∧
      resumed.2.Queued events ∧ P resumed.2 := by
  have start : (unschedule env event m).2.Holds events P := ⟨queued.unschedule, holds⟩
  obtain ⟨counted, lastQueued, lastHolds⟩ :=
    Holds.resume aside others excluded start own inHand rests
  refine ⟨fun free => Holds.unfired aside others excluded start free inHand rests, counted, ?_,
    lastQueued, lastHolds⟩
  rintro innermost outer rfl free instantRest instant entry member same
  rw [List.flatMap_cons] at own inHand
  obtain ⟨hand, outerHands⟩ := List.forall_mem_append.mp inHand
  obtain ⟨rest, outerRests⟩ := List.forall_mem_cons.mp rests
  have fired := Holds.fireAll (rest.related _ start) fun other isOther => by
    rcases hand other isOther with inSet | same
    · exact others other inSet
    · exact same ▸ own (List.mem_append_left _ (same ▸ isOther))
  obtain ⟨due, delivered⟩ := Holds.deliver aside others innermost.bound fired
  have now : (unschedule env event m).2.cycles = m.cycles :=
    (congrArg DeltaQueue.count (queue_unschedule env event m) :)
  rcases List.mem_append.mp member with inner | later
  · rcases List.mem_append.mp inner with inBatch | inDelivery
    · rw [time_of_mem_firedOf instant entry inBatch, instantRest, now]
    · exact absurd (same ▸ due entry inDelivery) excluded
  · exact absurd same
      (Holds.unfired aside others excluded delivered free outerHands outerRests entry later)

end Cancelled

/-- The first event cancels another. -/
def canceller (cancelled : Event) : Environment Unit :=
  { silence with
    notify := fun handle hook => do
      if hook = .event ∧ handle = ⟨0⟩ then
        let _ ← unschedule silence cancelled
    patience := 9 }

/-- An event is cancelled when it has been handed out behind the one that cancels it, and a periodic
one is still queued. -/
theorem cancelled_event_fires_only_from_hand_once :
    let cancelled := Event.outside ⟨1⟩
    let periodic := Event.periodic ⟨2⟩ (.outside ⟨3⟩) 5
    let start := (do
      schedule silence (.outside ⟨0⟩) 3
      schedule silence cancelled 3
      schedule silence periodic 5 : Action Unit Unit) (new smallPart ⟨.known 0, false, false⟩ ())
    let granted := start.2.grant 10
    let popped := granted.setQueue granted.clock.queue.popDue.2
    let resumed := resume (canceller cancelled) [⟨pure (), [cancelled], 8⟩]
      (unschedule (canceller cancelled) cancelled popped).2
    granted.clock.queue.popDue.1 = some [.outside ⟨0⟩, cancelled] ∧
      firings (canceller cancelled) 9 granted = ⟨3, .outside ⟨0⟩⟩ :: resumed.1 ∧
      (resumed.1.map Entry.event).count cancelled = 1 ∧
      (∀ entry ∈ resumed.1, entry.event = cancelled → entry.time = 3) ∧
      resumed.1 = [⟨3, cancelled⟩, ⟨5, periodic⟩, ⟨10, periodic⟩] := by
  intro cancelled periodic start granted popped resumed
  let alone (m : Machine Unit) : Prop := m.Holds (fun other => other = periodic) fun _ => True
  have renews (other : Event) (same : other = periodic) :
      Action.Respects (Keeps alone) (fire (canceller cancelled) other) := by
    subst same
    exact ⟨fun m holds => ⟨holds.1.add rfl 5, trivial⟩⟩
  have rests : ∀ delivery ∈ [(⟨pure (), [cancelled], 8⟩ : Pending Unit)],
      Action.Respects (Keeps alone) delivery.rest := by
    intro delivery member
    rw [List.mem_singleton.mp member]
    exact ⟨fun _ holds => holds⟩
  have queued : ∀ entry ∈ popped.clock.queue.agenda.entries,
      entry.event = periodic ∨ entry.event = cancelled := by
    decide +kernel
  have different : cancelled ≠ periodic := by decide
  have fires := cancelled_event_fires_only_from_hand (m := popped) (fun _ _ _ => trivial) renews
    different (fun _ => ⟨fun _ holds => holds⟩) (by simp) rests queued trivial
  obtain ⟨-, counted, inTime, -, -⟩ := fires
  have now : popped.cycles = 3 := by decide +kernel
  have instant : ∀ other ∈ [cancelled], ∀ m : Machine Unit,
      (fire (canceller cancelled) other m).2.cycles = m.cycles := by
    intro other member m
    rw [List.mem_singleton.mp member]
    rfl
  exact ⟨by decide +kernel, by decide +kernel, counted.trans (by decide), fun entry member same =>
    (inTime _ [] rfl (by decide) (fun _ => rfl) instant entry member same).trans now,
    by decide +kernel⟩

/-- A periodic event that is cancelled while it has been handed out goes on: it schedules itself
again when it fires. Nothing but itself schedules it. -/
theorem periodic_event_outlives_cancellation :
    let periodic := Event.periodic ⟨1⟩ (.outside ⟨2⟩) 10
    let start := (do
      schedule silence (.outside ⟨0⟩) 10
      let _ ← schedulePeriodic silence ⟨1⟩ (.outside ⟨2⟩) 10 : Action Unit Unit)
      (new smallPart ⟨.known 0, false, false⟩ ())
    let first := (advance (canceller periodic) 10 start.2).2
    firingsOf (canceller periodic) 10 start.2 = [⟨10, .outside ⟨0⟩⟩, ⟨10, periodic⟩] ∧
      first.cycles = 10 ∧
      firingsOf (canceller periodic) 10 first = [⟨20, periodic⟩] ∧
      (∀ m, fire (canceller periodic) (.outside ⟨0⟩) m =
        ((), (unschedule silence periodic m).2)) ∧
      ∀ m, fire (canceller periodic) (.outside ⟨2⟩) m = ((), m) := by
  refine ⟨by decide +kernel, by decide +kernel, by decide +kernel, fun _ => rfl, fun _ => rfl⟩

end Avr.Machine

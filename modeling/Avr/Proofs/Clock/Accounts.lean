import Avr.Proofs.Clock.Cancellation
import Avr.Proofs.Time.Renewal
import Mathlib.Tactic.Abel

/-!
Contract: an account of the occurrences of one event.

Owns:
- steps in which no time passes and no queued occurrence of the event is lost;
- the balance of a stretch of time: what was queued or in hand, and what was added meanwhile, has
  fired in its own cycle or is still queued;
- stretches of time, as advances with whatever else is done in between.

Other events come and go as they like. Whether the event is scheduled again is left to what is
called: the occurrences that may be added are a parameter.
-/

namespace Avr.Machine

open Avr.Time

variable {World : Type} {env : Environment World} {event : Event} {Added : Entry Event → Prop}
  {events : Event → Prop} {m middle next last : Machine World}

/-- The queued occurrences of an event. -/
def occurrences (event : Event) (m : Machine World) : List (Entry Event) :=
  m.clock.queue.selected fun other => other = event

/-- The occurrences of an event among entries. -/
def occurringIn (event : Event) (entries : List (Entry Event)) : List (Entry Event) :=
  ofKind (fun other => other = event) entries

theorem mem_occurringIn {entry : Entry Event} {entries : List (Entry Event)} :
    entry ∈ occurringIn event entries ↔ entry ∈ entries ∧ entry.event = event := by
  unfold occurringIn ofKind
  rw [List.mem_filter, decide_eq_true_iff]

theorem occurringIn_append (earlier later : List (Entry Event)) :
    occurringIn event (earlier ++ later) =
      occurringIn event earlier ++ occurringIn event later :=
  ofKind_append earlier later

/-- What is handed out was queued. -/
theorem occurrences_popDue (m : Machine World) :
    m.occurrences event =
      occurringIn event ((m.clock.queue.popDue.1.getD []).map
        (Entry.mk m.clock.queue.popDue.2.count)) ++
        (m.setQueue m.clock.queue.popDue.2).occurrences event :=
  m.clock.queue.selected_popDue

theorem forall_mem_add {early late : Multiset (Entry Event)} (first : ∀ entry ∈ early, Added entry)
    (rest : ∀ entry ∈ late, Added entry) : ∀ entry ∈ early + late, Added entry := by
  intro entry member
  rcases Multiset.mem_add.mp member with inEarly | inLate
  · exact first entry inEarly
  · exact rest entry inLate

/-! ### Steps in which no time passes -/

/-- No time passes, every queued occurrence of the event stays queued, and any that are new may be
added. -/
structure Gathers (event : Event) (Added : Entry Event → Prop) (m next : Machine World) :
    Prop where
  count : next.clock.queue.count = m.clock.queue.count
  budget : next.clock.queue.budget = m.clock.queue.budget
  tidy : DeltaQueue.Tidy m.clock.queue.links → DeltaQueue.Tidy next.clock.queue.links
  queued : DeltaQueue.Tidy m.clock.queue.links →
    ∃ added : Multiset (Entry Event), (∀ entry ∈ added, Added entry) ∧
      (next.occurrences event : Multiset (Entry Event)) = m.occurrences event + added

namespace Gathers

theorem of_eq (clock : next.clock = m.clock) : Gathers event Added m next where
  count := by rw [clock]
  budget := by rw [clock]
  tidy tidy := clock ▸ tidy
  queued _ := ⟨0, nofun, by rw [occurrences, clock, add_zero]; rfl⟩

theorem trans (first : Gathers event Added m middle) (rest : Gathers event Added middle next) :
    Gathers event Added m next where
  count := rest.count.trans first.count
  budget := rest.budget.trans first.budget
  tidy := rest.tidy ∘ first.tidy
  queued tidy := by
    obtain ⟨early, earlyAdded, earlier⟩ := first.queued tidy
    obtain ⟨late, lateAdded, later⟩ := rest.queued (first.tidy tidy)
    refine ⟨early + late, forall_mem_add earlyAdded lateAdded, ?_⟩
    rw [later, earlier, add_assoc]

/-- What leaves the occurrences of the event alone adds none. -/
theorem of_momentary (momentary : Momentary (fun other => other = event) m next) :
    Gathers event Added m next where
  count := momentary.count
  budget := momentary.budget
  tidy tidy := (momentary.queue tidy).1
  queued tidy := by
    refine ⟨0, nofun, ?_⟩
    rw [add_zero, occurrences, (momentary.queue tidy).2]
    rfl

/-- The event is scheduled once more. -/
theorem add {delay : Nat} (adds : Added ⟨m.cycles + delay, event⟩) :
    Gathers event Added m (m.setQueue (m.clock.queue.add event delay)) where
  count := rfl
  budget := rfl
  tidy := DeltaQueue.tidy_insert event delay
  queued tidy := by
    refine ⟨{⟨m.cycles + delay, event⟩}, fun entry member => ?_, ?_⟩
    · rw [Multiset.mem_singleton.mp member]
      exact adds
    · have entered : ((m.clock.queue.add event delay).selected fun other => other = event).Perm
          (⟨m.cycles + delay, event⟩ :: m.clock.queue.selected fun other => other = event) :=
        DeltaQueue.selected_add tidy event (decide_eq_true rfl) delay
      rw [add_comm, Multiset.singleton_add, Multiset.cons_coe]
      exact Multiset.coe_eq_coe.mpr entered

end Gathers

instance : IsPreorder (Machine World) (Gathers event Added) where
  refl _ := .of_eq rfl
  trans _ _ _ := .trans

/-- Events of a batch that let no time pass fire in one cycle. -/
theorem firedOf_of_gathers {batch : List Event}
    (gathers : ∀ other ∈ batch, Action.Respects (Gathers event Added) (fire env other))
    (m : Machine World) :
    firedOf env batch m = batch.map (Entry.mk m.cycles) ∧
      Gathers event Added m (batch.forM (fire env) m).2 := by
  induction batch generalizing m with
  | nil => exact ⟨rfl, .of_eq rfl⟩
  | cons first rest inductionHypothesis =>
      obtain ⟨firstGathers, restGathers⟩ := List.forall_mem_cons.mp gathers
      have fires := firstGathers.related m
      have now : (fire env first m).2.cycles = m.cycles := fires.count
      obtain ⟨others, later⟩ := inductionHypothesis restGathers (fire env first m).2
      constructor
      · rw [firedOf, others, now, List.map_cons]
      · exact fires.trans later

/-! ### Balances -/

/-- From one machine to a later one: the occurrences of the event that were handed out or queued,
and those that were added, are the ones that have fired and those still queued. -/
structure Accounts (event : Event) (Added : Entry Event → Prop) (handed fired : List (Entry Event))
    (m next : Machine World) : Prop where
  tidy : DeltaQueue.Tidy next.clock.queue.links
  forward : m.cycles ≤ next.cycles
  inTime : ∀ entry ∈ fired, entry.time ≤ next.cycles
  balance : ∃ added : Multiset (Entry Event), (∀ entry ∈ added, Added entry) ∧
    (occurringIn event fired + next.occurrences event : Multiset (Entry Event)) =
      occurringIn event handed + m.occurrences event + added

namespace Accounts

variable {handed fired handedLater firedLater : List (Entry Event)}

theorem trans (first : Accounts event Added handed fired m middle)
    (rest : Accounts event Added handedLater firedLater middle next) :
    Accounts event Added (handed ++ handedLater) (fired ++ firedLater) m next where
  tidy := rest.tidy
  forward := Nat.le_trans first.forward rest.forward
  inTime := by
    intro entry member
    rcases List.mem_append.mp member with early | late
    · exact Nat.le_trans (first.inTime entry early) rest.forward
    · exact rest.inTime entry late
  balance := by
    obtain ⟨early, earlyAdded, earlier⟩ := first.balance
    obtain ⟨late, lateAdded, later⟩ := rest.balance
    refine ⟨early + late, forall_mem_add earlyAdded lateAdded, ?_⟩
    rw [occurringIn_append, occurringIn_append, ← Multiset.coe_add, ← Multiset.coe_add]
    calc
      _ = (occurringIn event fired : Multiset (Entry Event)) +
            (occurringIn event firedLater + next.occurrences event) := by abel
      _ = (occurringIn event fired + middle.occurrences event : Multiset (Entry Event)) +
            (occurringIn event handedLater + late) := by rw [later]; abel
      _ = _ := by rw [earlier]; abel

theorem of_gathers (tidy : DeltaQueue.Tidy m.clock.queue.links)
    (gathers : Gathers event Added m next) : Accounts event Added [] [] m next where
  tidy := gathers.tidy tidy
  forward := Nat.le_of_eq gathers.count.symm
  inTime := nofun
  balance := by
    obtain ⟨added, adds, same⟩ := gathers.queued tidy
    refine ⟨added, adds, ?_⟩
    rw [same]
    abel

/-- Events that have been handed out fire in the cycle in which they were. -/
theorem of_batch {batch : List Event} (tidy : DeltaQueue.Tidy m.clock.queue.links)
    (gathers : ∀ other ∈ batch, Action.Respects (Gathers event Added) (fire env other)) :
    Accounts event Added (batch.map (Entry.mk m.cycles)) (firedOf env batch m) m
      (batch.forM (fire env) m).2 := by
  obtain ⟨fired, gathered⟩ := firedOf_of_gathers gathers m
  rw [fired]
  have now : (batch.forM (fire env) m).2.cycles = m.cycles := gathered.count
  refine ⟨gathered.tidy tidy, Nat.le_of_eq now.symm, ?_, ?_⟩
  · intro entry member
    obtain ⟨other, -, rfl⟩ := List.mem_map.mp member
    exact Nat.le_of_eq now.symm
  · obtain ⟨added, adds, same⟩ := gathered.queued tidy
    refine ⟨added, adds, ?_⟩
    rw [same, add_assoc]

/-- A batch is taken off the queue. -/
theorem of_popDue (accounts : Accounts event Added
      ((m.clock.queue.popDue.1.getD []).map (Entry.mk m.clock.queue.popDue.2.count)) fired
      (m.setQueue m.clock.queue.popDue.2) next) :
    Accounts event Added [] fired m next where
  tidy := accounts.tidy
  forward := Nat.le_trans (DeltaQueue.count_le_perform .popDue m.clock.queue) accounts.forward
  inTime := accounts.inTime
  balance := by
    obtain ⟨added, adds, same⟩ := accounts.balance
    refine ⟨added, adds, ?_⟩
    rw [same, occurrences_popDue m, ← Multiset.coe_add]
    show _ = 0 + _ + added
    rw [zero_add]

end Accounts

/-! ### Deliveries -/

/-- What is done with the clock by a set of events: they queue only each other, let no time pass,
and lose no occurrence of the event. -/
structure Company (env : Environment World) (event : Event) (Added : Entry Event → Prop)
    (events : Event → Prop) : Prop where
  closed : ClosedUnder env events
  gathers : ∀ other, events other → Action.Respects (Gathers event Added) (fire env other)

namespace Company

variable (company : Company env event Added events)
include company

theorem batch {batch : List Event} (each : ∀ other ∈ batch, events other)
    (tidy : DeltaQueue.Tidy m.clock.queue.links) :
    Accounts event Added (batch.map (Entry.mk m.cycles)) (firedOf env batch m) m
      (batch.forM (fire env) m).2 :=
  .of_batch tidy fun other member => company.gathers other (each other member)

/-- By induction on the batches that are handed out. -/
theorem deliver (bound : Nat) (tidy : DeltaQueue.Tidy m.clock.queue.links)
    (queued : m.Queued events) :
    Accounts event Added [] (firings env bound m) m (Machine.deliver env bound m).2 := by
  induction bound generalizing m with
  | zero => exact .of_gathers tidy (.of_eq rfl)
  | succ bound inductionHypothesis =>
      have popTidy := DeltaQueue.tidy_perform .popDue tidy
      apply Accounts.of_popDue
      rcases due : m.clock.queue.popDue.1 with _ | batch
      · rw [firings_of_none due, deliver_of_none due]
        exact .of_gathers popTidy (.of_eq rfl)
      · rw [firings_of_some due, deliver_of_some due]
        have each := queued.popDue_some due
        have fires := company.batch (m := m.setQueue m.clock.queue.popDue.2) each popTidy
        have others := inductionHypothesis fires.tidy (company.closed.fireAll each queued.popDue.2)
        have whole := fires.trans others
        rw [List.append_nil] at whole
        exact whole

theorem advance (cycles : Nat) (tidy : DeltaQueue.Tidy m.clock.queue.links)
    (queued : m.Queued events) :
    Accounts event Added [] (firingsOf env cycles m) m (Machine.advance env cycles m).2 ∧
      (Machine.advance env cycles m).2.Queued events := by
  constructor
  · obtain ⟨tidy, forward, inTime, balance⟩ :=
      company.deliver env.patience (m := m.grant cycles) tidy queued
    exact ⟨tidy, forward, inTime, balance⟩
  · exact company.closed.deliver env.patience (queued.grant cycles)

/-- What is left of a delivery in progress fires what it has in hand, and then what is due. -/
theorem resume {delivery : Pending World} (hand : ∀ other ∈ delivery.inHand, events other)
    (rests : Action.Respects (Gathers event Added) delivery.rest)
    (keeps : Action.Respects (Keeps (Queued events)) delivery.rest)
    (tidy : DeltaQueue.Tidy m.clock.queue.links) (queued : m.Queued events) :
    Accounts event Added (delivery.inHand.map (Entry.mk m.cycles))
        (Machine.resume env [delivery] m).1 m (Machine.resume env [delivery] m).2 ∧
      (Machine.resume env [delivery] m).2.Queued events := by
  have rested := rests.related m
  have now : (delivery.rest m).2.cycles = m.cycles := rested.count
  have fires := company.batch hand (rested.tidy tidy)
  have restedQueued := keeps.related m queued
  have firedQueued := company.closed.fireAll hand restedQueued
  have delivers := company.deliver delivery.bound fires.tidy firedQueued
  rw [now] at fires
  constructor
  · have whole := (Accounts.of_gathers tidy rested).trans (fires.trans delivers)
    rw [List.nil_append, List.append_nil] at whole
    unfold Machine.resume
    dsimp only
    rw [Machine.resume, List.append_nil]
    exact whole
  · exact company.closed.deliver delivery.bound firedQueued

end Company

/-! ### Stretches of time -/

/-- Time goes by: what is left of a delivery is resumed, and then the clock advances again and
again, with other things done in between. The events that fire are listed in order. -/
inductive Elapses (env : Environment World) (event : Event) (Added : Entry Event → Prop)
    (events : Event → Prop) (m : Machine World) :
    (inHand : List Event) → List (Entry Event) → Machine World → Prop where
  | resume {delivery : Pending World} (hand : ∀ other ∈ delivery.inHand, events other)
      (rests : Action.Respects (Gathers event Added) delivery.rest)
      (keeps : Action.Respects (Keeps (Queued events)) delivery.rest) :
      Elapses env event Added events m delivery.inHand (Machine.resume env [delivery] m).1
        (Machine.resume env [delivery] m).2
  | advance {inHand : List Event} {fired : List (Entry Event)} {middle : Machine World}
      (elapses : Elapses env event Added events m inHand fired middle) (cycles : Nat) :
      Elapses env event Added events m inHand (fired ++ firingsOf env cycles middle)
        (Machine.advance env cycles middle).2
  | aside {inHand : List Event} {fired : List (Entry Event)} {middle : Machine World}
      (elapses : Elapses env event Added events m inHand fired middle) (act : Action World Unit)
      (gathers : Action.Respects (Gathers event Added) act)
      (keeps : Action.Respects (Keeps (Queued events)) act) :
      Elapses env event Added events m inHand fired (act middle).2

theorem Elapses.accounts (company : Company env event Added events) {inHand : List Event}
    {fired : List (Entry Event)} (elapses : Elapses env event Added events m inHand fired last)
    (tidy : DeltaQueue.Tidy m.clock.queue.links) (queued : m.Queued events) :
    Accounts event Added (inHand.map (Entry.mk m.cycles)) fired m last ∧ last.Queued events := by
  induction elapses with
  | resume hand rests keeps => exact company.resume hand rests keeps tidy queued
  | advance elapses cycles inductionHypothesis =>
      obtain ⟨before, middleQueued⟩ := inductionHypothesis
      obtain ⟨passes, lastQueued⟩ := company.advance cycles before.tidy middleQueued
      have after := before.trans passes
      rw [List.append_nil] at after
      exact ⟨after, lastQueued⟩
  | aside elapses act gathers keeps inductionHypothesis =>
      obtain ⟨before, middleQueued⟩ := inductionHypothesis
      have after := before.trans (.of_gathers before.tidy (gathers.related _))
      rw [List.append_nil, List.append_nil] at after
      exact ⟨after, keeps.related _ middleQueued⟩

end Avr.Machine

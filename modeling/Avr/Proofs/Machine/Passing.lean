import Avr.Machine.Delivery
import Avr.Proofs.Time.Selection

/-!
Contract: the passing of time, seen through the events of one kind.

Owns:
- steps in which no time passes and the queued events of a kind stay;
- what one event does, as what a whole delivery does: the events of the kind that are due fire in
  order, each in its own cycle, and the others in between do not count;
- clocks that have nothing more to hand out, as an advance leaves them when it comes to its end.
-/

namespace Avr.Machine

open Avr.Time

variable {World : Type} {env : Environment World} {test : Event → Bool}

/-- No time passes, and the queued events of a kind stay. -/
structure Momentary (test : Event → Bool) (m next : Machine World) : Prop where
  count : next.clock.queue.count = m.clock.queue.count
  budget : next.clock.queue.budget = m.clock.queue.budget
  queue : DeltaQueue.Tidy m.clock.queue.links → DeltaQueue.Tidy next.clock.queue.links ∧
    next.clock.queue.selected test = m.clock.queue.selected test

namespace Momentary

theorem of_eq {m next : Machine World} (clock : next.clock = m.clock) : Momentary test m next :=
  ⟨by rw [clock], by rw [clock], fun tidy => by rw [clock]; exact ⟨tidy, rfl⟩⟩

theorem trans {m middle next : Machine World} (first : Momentary test m middle)
    (rest : Momentary test middle next) : Momentary test m next where
  count := rest.count.trans first.count
  budget := rest.budget.trans first.budget
  queue tidy :=
    have ⟨middleTidy, firstSame⟩ := first.queue tidy
    have ⟨nextTidy, restSame⟩ := rest.queue middleTidy
    ⟨nextTidy, restSame.trans firstSame⟩

/-- An event of another kind is queued. -/
theorem add {event : Event} (other : test event = false) (delay : Nat) (m : Machine World) :
    Momentary test m (m.setQueue (m.clock.queue.add event delay)) :=
  ⟨rfl, rfl, fun tidy => ⟨DeltaQueue.tidy_insert event delay tidy,
    DeltaQueue.selected_add_other tidy other delay⟩⟩

/-- Events of another kind are taken from the queue. -/
theorem remove {event : Event} (other : test event = false) (m : Machine World) :
    Momentary test m (m.setQueue (m.clock.queue.removeMatching fun queued => queued = event)) := by
  refine ⟨rfl, rfl, fun tidy => ⟨DeltaQueue.tidy_sweep _ 0 tidy,
    DeltaQueue.selected_removeMatching_other _ fun queued passes => ?_⟩⟩
  rw [decide_eq_false_iff_not]
  rintro rfl
  rw [other] at passes
  cases passes

end Momentary

/-- What the events of a kind do when they fire. `Ready` is what an event needs, and `Fired` what
has come of the entries that fired in a row. -/
structure Firing (env : Environment World) (test : Event → Bool)
    (Ready : Machine World → Event → Prop)
    (Fired : List (Entry Event) → Machine World → Machine World → Prop) : Prop where
  queue : ∀ (m : Machine World) queue, Fired [] m (m.setQueue queue)
  append : ∀ {earlier later m middle next}, Fired earlier m middle → Fired later middle next →
    Fired (earlier ++ later) m next
  ready : ∀ {entries m next event}, Fired entries m next → Ready m event → Ready next event
  fire : ∀ {m event}, (test event = true → Ready m event) →
    Fired ([⟨m.cycles, event⟩].filter fun entry => test entry.event) m (fire env event m).2 ∧
      Momentary test m (fire env event m).2

/-- Entries of a kind have been delivered, each in its own cycle; the rest is still queued. -/
structure Delivered (test : Event → Bool)
    (Fired : List (Entry Event) → Machine World → Machine World → Prop)
    (entries : List (Entry Event)) (m next : Machine World) : Prop where
  fired : Fired entries m next
  remaining : m.clock.queue.selected test = entries ++ next.clock.queue.selected test
  due : ∀ entry ∈ entries, entry.time ≤ m.clock.queue.agenda.horizon
  horizon : next.clock.queue.agenda.horizon = m.clock.queue.agenda.horizon
  tidy : DeltaQueue.Tidy next.clock.queue.links

theorem deliver_succ (env : Environment World) (bound : Nat) (m : Machine World) :
    deliver env (bound + 1) m =
      match m.clock.queue.popDue.1 with
      | none => ((), m.setQueue m.clock.queue.popDue.2)
      | some batch =>
        deliver env bound (batch.forM (fire env) (m.setQueue m.clock.queue.popDue.2)).2 := by
  have opened : deliver env (bound + 1) m =
      ((match m.clock.queue.popDue.1 with
        | none => return
        | some batch => do
          batch.forM (fire env)
          deliver env bound : Action World Unit)) (m.setQueue m.clock.queue.popDue.2) := rfl
  rw [opened]
  cases m.clock.queue.popDue.1 <;> rfl

/-- If nothing becomes due, an advance is nothing but the passing of time. -/
theorem advance_of_popDue_eq_none (patient : 0 < env.patience) {cycles : Nat} {m : Machine World}
    (nothing : (m.clock.queue.advance cycles).popDue.1 = none) :
    advance env cycles m = ((), m.setQueue (m.clock.queue.advance cycles).popDue.2) := by
  obtain ⟨bound, isBound⟩ := Nat.exists_eq_succ_of_ne_zero (Nat.ne_of_gt patient)
  change deliver env env.patience (m.setQueue (m.clock.queue.advance cycles)) = _
  have granted : (m.setQueue (m.clock.queue.advance cycles)).clock.queue =
      m.clock.queue.advance cycles := rfl
  rw [isBound, deliver_succ, granted, nothing]
  rfl

/-- A clock that has handed out everything that is due. -/
def CaughtUp (m : Machine World) : Prop :=
  m.clock.queue.popDue = (none, m.clock.queue)

theorem CaughtUp.budget {m : Machine World} (caughtUp : m.CaughtUp) : m.clock.queue.budget = 0 := by
  rw [CaughtUp, DeltaQueue.popDue] at caughtUp
  split at caughtUp
  · exact (congrArg (fun popped => popped.2.budget) caughtUp).symm
  · split at caughtUp
    · cases congrArg Prod.fst caughtUp
    · exact (congrArg (fun popped => popped.2.budget) caughtUp).symm

/-- What is queued on a clock that has caught up lies ahead. -/
theorem CaughtUp.ahead {m : Machine World} (caughtUp : m.CaughtUp) :
    ∀ entry ∈ m.clock.queue.selected test, m.cycles < entry.time := by
  intro entry member
  have beyond := DeltaQueue.horizon_lt_of_popDue_eq_none (congrArg Prod.fst caughtUp) entry
    (List.mem_of_mem_filter member)
  exact Nat.lt_of_le_of_lt (Nat.le_add_right _ _) beyond

namespace Firing

variable {Ready : Machine World → Event → Prop}
  {Fired : List (Entry Event) → Machine World → Machine World → Prop}
  (firing : Firing env test Ready Fired)
include firing

/-- The events of one batch fire in one cycle, in order. -/
theorem fireAll (batch : List Event) {m : Machine World}
    (ready : ∀ event ∈ batch, test event = true → Ready m event) :
    Fired ((batch.map (Entry.mk m.cycles)).filter fun entry => test entry.event) m
        (batch.forM (Machine.fire env) m).2 ∧
      Momentary test m (batch.forM (Machine.fire env) m).2 := by
  induction batch generalizing m with
  | nil => exact ⟨firing.queue m m.clock.queue, .of_eq rfl⟩
  | cons first rest inductionHypothesis =>
      obtain ⟨fired, momentary⟩ := firing.fire (ready first List.mem_cons_self)
      have sameCycle : (Machine.fire env first m).2.cycles = m.cycles := momentary.count
      obtain ⟨restFired, restMomentary⟩ := inductionHypothesis
        (m := (Machine.fire env first m).2) fun event member passes =>
          firing.ready fired (ready event (List.mem_cons_of_mem first member) passes)
      rw [sameCycle] at restFired
      refine ⟨?_, momentary.trans restMomentary⟩
      rw [List.map_cons, ← List.singleton_append, List.filter_append]
      exact firing.append fired restFired

/-- A batch that was handed out, and the delivery of the rest. -/
theorem batch {m fired next : Machine World} {batch : List Event} {entries : List (Entry Event)}
    (tidy : DeltaQueue.Tidy m.clock.queue.links)
    (popped : m.clock.queue.popDue.1 = some batch)
    (fires : Fired ((batch.map (Entry.mk m.clock.queue.popDue.2.count)).filter
      fun entry => test entry.event) (m.setQueue m.clock.queue.popDue.2) fired)
    (momentary : Momentary test (m.setQueue m.clock.queue.popDue.2) fired)
    (rest : Delivered test Fired entries fired next) :
    Delivered test Fired (((batch.map (Entry.mk m.clock.queue.popDue.2.count)).filter
      fun entry => test entry.event) ++ entries) m next := by
  have popHorizon : m.clock.queue.popDue.2.agenda.horizon = m.clock.queue.agenda.horizon :=
    DeltaQueue.horizon_perform .popDue m.clock.queue
  have firedHorizon : fired.clock.queue.agenda.horizon = m.clock.queue.agenda.horizon := by
    rw [← popHorizon]
    exact congrArg₂ (· + ·) momentary.count momentary.budget
  have firedSame : fired.clock.queue.selected test = m.clock.queue.popDue.2.selected test :=
    (momentary.queue (DeltaQueue.tidy_perform .popDue tidy)).2
  refine ⟨?_, ?_, fun entry member => ?_, rest.horizon.trans firedHorizon, rest.tidy⟩
  · exact firing.append (firing.append (firing.queue m m.clock.queue.popDue.2) fires) rest.fired
  · rw [DeltaQueue.selected_popDue, popped, Option.getD_some, ← firedSame, rest.remaining,
      List.append_assoc]
  · rcases List.mem_append.mp member with now | later
    · obtain ⟨event, -, rfl⟩ := List.mem_map.mp (List.mem_of_mem_filter now)
      rw [← popHorizon]
      exact Nat.le_add_right _ _
    · rw [← firedHorizon]
      exact rest.due entry later

/-- By induction on the batches that are handed out. -/
theorem deliver (bound : Nat) {m : Machine World} (tidy : DeltaQueue.Tidy m.clock.queue.links)
    (ready : ∀ entry ∈ m.clock.queue.selected test, Ready m entry.event) :
    ∃ entries, Delivered test Fired entries m (deliver env bound m).2 := by
  induction bound generalizing m with
  | zero => exact ⟨[], firing.queue m m.clock.queue, rfl, nofun, rfl, tidy⟩
  | succ bound inductionHypothesis =>
      have split : m.clock.queue.selected test = _ := m.clock.queue.selected_popDue
      have popTidy := DeltaQueue.tidy_perform .popDue tidy
      have popped := firing.queue m m.clock.queue.popDue.2
      rw [deliver_succ]
      rcases handed : m.clock.queue.popDue.1 with _ | batch
      · rw [handed] at split
        exact ⟨[], popped, split, nofun, DeltaQueue.horizon_perform .popDue m.clock.queue, popTidy⟩
      · rw [handed, Option.getD_some] at split
        have allReady : ∀ entry ∈ m.clock.queue.selected test,
            Ready (m.setQueue m.clock.queue.popDue.2) entry.event :=
          fun entry member => firing.ready popped (ready entry member)
        obtain ⟨fired, momentary⟩ := firing.fireAll batch
          (m := m.setQueue m.clock.queue.popDue.2) fun event member passes =>
            allReady ⟨m.clock.queue.popDue.2.count, event⟩ (split ▸ List.mem_append_left _
              (List.mem_filter.mpr ⟨List.mem_map_of_mem member, passes⟩))
        obtain ⟨firedTidy, firedSame⟩ := momentary.queue popTidy
        obtain ⟨entries, rest⟩ := inductionHypothesis firedTidy fun entry member => by
          rw [firedSame] at member
          exact firing.ready fired (allReady entry (split ▸ List.mem_append_right _ member))
        exact ⟨_, firing.batch tidy handed fired momentary rest⟩

/-- An advance that comes to its end fires what is due within it. -/
theorem advance (cycles : Nat) {m : Machine World} (tidy : DeltaQueue.Tidy m.clock.queue.links)
    (spent : m.clock.queue.budget = 0)
    (ready : ∀ entry ∈ m.clock.queue.selected test, Ready m entry.event)
    (caughtUp : (Machine.advance env cycles m).2.CaughtUp) :
    let next := (Machine.advance env cycles m).2
    next.cycles = m.cycles + cycles ∧ DeltaQueue.Tidy next.clock.queue.links ∧
      Fired ((m.clock.queue.selected test).filter fun entry => entry.time ≤ next.cycles) m next ∧
      next.clock.queue.selected test =
        (m.clock.queue.selected test).filter fun entry => next.cycles < entry.time := by
  intro next
  have granted := firing.queue m (m.clock.queue.advance cycles)
  obtain ⟨entries, delivered⟩ := firing.deliver env.patience
    (m := m.setQueue (m.clock.queue.advance cycles)) tidy
    fun entry member => firing.ready granted (ready entry member)
  change Delivered test Fired entries _ next at delivered
  change next.CaughtUp at caughtUp
  clear_value next
  have nextHorizon : next.clock.queue.agenda.horizon = next.cycles := by
    rw [DeltaQueue.agenda, caughtUp.budget]
    rfl
  have horizon : next.cycles = m.cycles + cycles := by
    rw [← nextHorizon, delivered.horizon]
    change m.cycles + (m.clock.queue.budget + cycles) = m.cycles + cycles
    rw [spent, Nat.zero_add]
  have split : m.clock.queue.selected test = entries ++ next.clock.queue.selected test :=
    delivered.remaining
  have early : ∀ entry ∈ entries, entry.time ≤ next.cycles := fun entry member =>
    nextHorizon ▸ delivered.horizon ▸ delivered.due entry member
  have late : ∀ entry ∈ next.clock.queue.selected test, next.cycles < entry.time := caughtUp.ahead
  have firedIs : (m.clock.queue.selected test).filter (fun entry => entry.time ≤ next.cycles) =
      entries := by
    rw [split, List.filter_append, List.filter_eq_self.mpr (by simpa using early),
      List.filter_eq_nil_iff.mpr (by simpa using late), List.append_nil]
  have remaining : (m.clock.queue.selected test).filter (fun entry => next.cycles < entry.time) =
      next.clock.queue.selected test := by
    rw [split, List.filter_append, List.filter_eq_nil_iff.mpr (by simpa using early),
      List.filter_eq_self.mpr (by simpa using late), List.nil_append]
  rw [firedIs, remaining]
  exact ⟨horizon, delivered.tidy, firing.append granted delivered.fired, rfl⟩

end Firing

end Avr.Machine

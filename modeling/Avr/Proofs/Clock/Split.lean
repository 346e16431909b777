import Avr.Proofs.Clock.Firings

/-!
Contract: an advance of the clock may be split at any cycle.

Owns:
- computations that let no time pass and to which it does not matter how much time is granted;
- the operations that an event can make of the clock and of the machine as such computations;
- the two parts of an advance fire what the whole advance fires, and leave the same machine;
- an advance within a delivery, which also delivers what that delivery has left.

Does not own: events that let time pass, or that ask when the next event is due; what they see is
the part of the time that is left.
-/

namespace Avr

open Avr.Time Avr.Interrupt Avr.Automaton

namespace Time.DeltaQueue

universe u

/-- A batch that is due stays due when more time is granted. -/
theorem popDue_advance_of_some {α : Type u} (q : DeltaQueue α) {batch : List α}
    (due : q.popDue.1 = some batch) (cycles : Nat) :
    (q.advance cycles).popDue.1 = some batch ∧
      (q.advance cycles).popDue.2 = q.popDue.2.advance cycles := by
  obtain ⟨links, count, budget⟩ := q
  cases links with
  | nil => cases due
  | cons head rest =>
      by_cases now : head.delta ≤ budget
      · rw [popDue_of_le now] at due ⊢
        rw [advance, popDue_of_le (Nat.le_add_right_of_le now)]
        refine ⟨due, ?_⟩
        rw [advance, Nat.sub_add_comm now]
      · rw [popDue_of_lt (Nat.not_le.mp now)] at due
        cases due

end Time.DeltaQueue

variable {World α β : Type} {env : Environment World}

/-- The second machine is the first with more cycles granted, at a fixed point of time. -/
structure Machine.Granted (cycles count budget : Nat) (m n : Machine World) : Prop where
  eq : n = m.grant cycles
  count : m.clock.queue.count = count
  budget : m.clock.queue.budget = budget

/-- No time passes, and it neither matters nor changes how much time is granted. -/
def Action.Unhurried (act : Action World α) : Prop :=
  ∀ cycles count budget, Action.Mirrors (Machine.Granted cycles count budget) act act

namespace Action.Unhurried

open Machine

variable {act : Action World α}

theorem granted (unhurried : act.Unhurried) (m : Machine World) (cycles : Nat) :
    act (m.grant cycles) = ((act m).1, (act m).2.grant cycles) := by
  have agree := (unhurried cycles _ _).agree m (m.grant cycles) ⟨rfl, rfl, rfl⟩
  exact Prod.ext agree.same.symm agree.accord.eq

theorem count (unhurried : act.Unhurried) (m : Machine World) :
    (act m).2.clock.queue.count = m.clock.queue.count :=
  ((unhurried 0 _ _).agree m (m.grant 0) ⟨rfl, rfl, rfl⟩).accord.count

theorem budget (unhurried : act.Unhurried) (m : Machine World) :
    (act m).2.clock.queue.budget = m.clock.queue.budget :=
  ((unhurried 0 _ _).agree m (m.grant 0) ⟨rfl, rfl, rfl⟩).accord.budget

theorem pure (value : α) : Action.Unhurried (pure value : Action World α) :=
  fun _ _ _ => .pure value

theorem bind {next : α → Action World β} (first : act.Unhurried)
    (rest : ∀ value, (next value).Unhurried) : (act >>= next).Unhurried :=
  fun _ _ _ => .bind (first _ _ _) fun value => rest value _ _ _

/-- What is read does not depend on the time that is granted. -/
theorem getting {next : Machine World → Action World α}
    (blind : ∀ m cycles, next (m.grant cycles) = next m) (each : ∀ m, (next m).Unhurried) :
    (get >>= next).Unhurried :=
  fun _ _ _ => .getting fun m _ same => by
    rw [same.eq, blind]
    exact each m _ _ _

theorem modify {change : Machine World → Machine World}
    (blind : ∀ m cycles, change (m.grant cycles) = (change m).grant cycles)
    (count : ∀ m, (change m).clock.queue.count = m.clock.queue.count)
    (budget : ∀ m, (change m).clock.queue.budget = m.clock.queue.budget) :
    Action.Unhurried (modify change : Action World Unit) :=
  fun _ _ _ => .modify fun m _ same =>
    ⟨same.eq ▸ blind m _, (count m).trans same.count, (budget m).trans same.budget⟩

theorem forM {act : α → Action World PUnit} (each : ∀ value, (act value).Unhurried)
    (values : List α) : (values.forM act).Unhurried :=
  fun _ _ _ => .forM (fun value => each value _ _ _) values

end Action.Unhurried

namespace Machine

open Avr.Action (Unhurried)

/-! ### Operations of the machine -/

theorem unhurried_note (notice : Notice) : Unhurried (note env notice) :=
  .modify (fun _ _ => rfl) (fun _ => rfl) fun _ => rfl

theorem unhurried_schedule (event : Event) (delay : Nat) : Unhurried (schedule env event delay) :=
  .getting (fun _ _ => rfl) fun _ => .bind (unhurried_note _) fun _ =>
    .modify (fun _ _ => rfl) (fun _ => rfl) fun _ => rfl

theorem unhurried_unschedule (event : Event) : Unhurried (unschedule env event) := by
  refine .getting (fun _ _ => rfl) fun m => .bind (.modify (fun _ _ => rfl) (fun _ => rfl)
    fun _ => rfl) fun _ => ?_
  split
  · exact .bind (unhurried_note _) fun _ => .pure _
  · exact .bind (.pure _) fun _ => .pure _

theorem unhurried_timeout : Unhurried (timeout env) :=
  .getting (fun _ _ => rfl) fun _ => .bind (unhurried_note _) fun _ =>
    .modify (fun _ _ => rfl) (fun _ => rfl) fun _ => rfl

section Callbacks

variable (notify : ∀ handle hook, (env.notify handle hook).Unhurried)
include notify

theorem unhurried_notifyAll (handles : HandleList) (hook : Hook) :
    Unhurried (notifyAll env handles hook) :=
  .forM (fun handle => notify handle hook) handles

theorem unhurried_changeVector (change : Table → Nat → Except Fault Table) (hook : Nat → Hook)
    (vector : Nat) : Unhurried (changeVector env change hook vector).run := by
  have mirrors (cycles count budget : Nat) :
      Attempt.Mirrors (Granted cycles count budget) (changeVector env change hook vector)
        (changeVector env change hook vector) := by
    refine .bind (.attempt fun m n same => ?_) fun _ => .lift ?_
    · obtain ⟨rfl, count, budget⟩ := same
      have concur : Concur Eq (change m.interrupts.table vector)
          (change m.interrupts.table vector) := concur_itself fun _ _ => rfl
      exact concur.map fun _ _ same => same ▸ ⟨rfl, count, budget⟩
    · exact Unhurried.getting (fun _ _ => rfl)
        (fun _ => unhurried_notifyAll notify _ _) _ _ _
  exact fun _ _ _ => (mirrors _ _ _).run

theorem unhurried_setPosted (vector : Nat) (posted : Bool) :
    Unhurried (setPosted env vector posted).run := by
  cases posted
  · exact unhurried_changeVector notify _ _ _
  · exact unhurried_changeVector notify _ _ _

theorem unhurried_writeSpmControl (value : UInt8) : Unhurried (writeSpmControl env value).run := by
  have rest : ∀ cycles count budget, Attempt.Mirrors (Granted cycles count budget)
      (do
        modify fun m => m.modifySpm fun unit => { unit with control := armedValue value }
        setPosted env (← get).part.spmReady (reportsReady (armedValue value)) :
          Attempt World Unit)
      (do
        modify fun m => m.modifySpm fun unit => { unit with control := armedValue value }
        setPosted env (← get).part.spmReady (reportsReady (armedValue value))) := by
    intro cycles count budget
    refine .bind (.modify fun m n same => ?_) fun _ => .getting fun m n same => ?_
    · obtain ⟨rfl, count, budget⟩ := same
      exact ⟨rfl, count, budget⟩
    · obtain ⟨rfl, -, -⟩ := same
      exact ⟨unhurried_setPosted notify _ _ _ _ _⟩
  intro cycles count budget
  refine Attempt.Mirrors.run ?_
  unfold writeSpmControl
  split
  · exact .bind (.lift (unhurried_unschedule _ _ _ _)) fun _ =>
      .bind (.lift (unhurried_schedule _ _ _ _ _)) fun _ => rest _ _ _
  · exact rest _ _ _

theorem unhurried_clearOperation : Unhurried (clearOperation env).run := by
  intro cycles count budget
  refine Attempt.Mirrors.run (.getting fun m n same => ?_)
  obtain ⟨rfl, -, -⟩ := same
  exact ⟨unhurried_writeSpmControl notify _ _ _ _⟩

theorem unhurried_settleOperation : Unhurried (settleOperation env) := by
  refine .getting (fun _ _ => rfl) fun m => ?_
  split
  · refine .bind (unhurried_clearOperation notify) fun result => ?_
    cases result with
    | ok _ => exact .pure _
    | error fault => exact unhurried_note _
  · exact .pure _

theorem unhurried_completePage (start size : Nat) (contents : Option (List UInt8)) :
    Unhurried (completePage env start size contents) := by
  refine .getting (fun _ _ => rfl) fun m => ?_
  split
  · exact .bind (.modify (fun _ _ => rfl) (fun _ => rfl) fun _ => rfl) fun _ =>
      .bind (unhurried_note _) fun _ => unhurried_settleOperation notify
  · exact .bind (unhurried_note _) fun _ => unhurried_settleOperation notify

theorem unhurried_completeTransition (id : Nat) (source target : Int) :
    Unhurried (completeTransition env id source target) := by
  refine .getting (fun _ _ => rfl) fun m => ?_
  split
  · exact .pure _
  · split
    · exact .bind (.modify (fun _ _ => rfl) (fun _ => rfl) fun _ => rfl) fun _ =>
        .bind (unhurried_notifyAll notify _ _) fun _ =>
          .modify (fun _ _ => rfl) (fun _ => rfl) fun _ => rfl
    · exact .pure _

/-- An event is unhurried if the callbacks are; those that let time pass are not. -/
theorem unhurried_fire (event : Event) : Unhurried (fire env event) := by
  induction event with
  | outside handle => exact notify handle .event
  | periodic handle event period inductionHypothesis =>
      exact .bind (unhurried_schedule _ _) fun _ => inductionHypothesis
  | timeout handle => exact unhurried_timeout
  | spmReset => exact unhurried_settleOperation notify
  | pageOperation start size contents => exact unhurried_completePage notify start size contents
  | arrival machine source target => exact unhurried_completeTransition notify machine source target

end Callbacks

/-! ### A batch, then a delivery -/

section Split

variable {events : Event → Prop} (unhurried : ∀ event, events event → Unhurried (fire env event))
include unhurried

/-- The events of a batch fire alike, however much time is granted. -/
theorem forM_grant {batch : List Event} (each : ∀ event ∈ batch, events event) (m : Machine World)
    (cycles : Nat) :
    (batch.forM (fire env) (m.grant cycles)).2 = (batch.forM (fire env) m).2.grant cycles ∧
      firedOf env batch (m.grant cycles) = firedOf env batch m := by
  induction batch generalizing m with
  | nil => exact ⟨rfl, rfl⟩
  | cons event rest inductionHypothesis =>
      obtain ⟨first, others⟩ := List.forall_mem_cons.mp each
      have fired : (fire env event (m.grant cycles)).2 = (fire env event m).2.grant cycles :=
        congrArg Prod.snd ((unhurried event first).granted m cycles)
      obtain ⟨same, sameFirings⟩ := inductionHypothesis others (fire env event m).2
      rw [forM_cons, forM_cons, firedOf, firedOf, fired]
      exact ⟨same, congrArg _ sameFirings⟩

/-- By induction on the batches of the whole. The parts go on like the whole until the first of them
has nothing due; from there on it does not matter that the rest of the time is granted later. -/
theorem deliver_grant (closed : ClosedUnder env events) {bound : Nat} {m : Machine World}
    (queued : m.Queued events) {cycles : Nat}
    (ended : (deliver env bound (m.grant cycles)).2.CaughtUp) :
    let middle := (deliver env bound m).2
    middle.CaughtUp ∧
      (deliver env bound (middle.grant cycles)).2 = (deliver env bound (m.grant cycles)).2 ∧
      firings env bound m ++ firings env bound (middle.grant cycles) =
        firings env bound (m.grant cycles) := by
  induction bound generalizing m with
  | zero =>
      have all : m.clock.queue.budget + cycles = 0 := CaughtUp.budget ended
      obtain rfl : cycles = 0 := Nat.eq_zero_of_add_eq_zero_left all
      exact ⟨ended, rfl, rfl⟩
  | succ bound inductionHypothesis =>
      rcases due : m.clock.queue.popDue.1 with _ | batch
      · have granted : (m.clock.queue.advance 0).popDue.1 = none := due
        have same := DeltaQueue.popDue_advance_add granted cycles
        rw [Nat.zero_add] at same
        rw [deliver_of_none due, firings_of_none due]
        exact ⟨caughtUp_of_none due, congrArg Prod.snd (deliver_congr same bound),
          firings_congr (m := m) same (bound + 1)⟩
      · obtain ⟨dueGranted, left⟩ := m.clock.queue.popDue_advance_of_some due cycles
        obtain ⟨fired, sameFirings⟩ := forM_grant unhurried (queued.popDue_some due)
          (m.setQueue m.clock.queue.popDue.2) cycles
        have granted : (m.grant cycles).setQueue (m.grant cycles).clock.queue.popDue.2 =
            (m.setQueue m.clock.queue.popDue.2).grant cycles :=
          congrArg (fun queue => m.setQueue queue) left
        rw [deliver_of_some (m := m.grant cycles) dueGranted, granted, fired] at ended ⊢
        rw [firings_of_some (m := m.grant cycles) dueGranted, granted, sameFirings, fired,
          deliver_of_some due, firings_of_some due]
        obtain ⟨caughtUp, sameEnd, restFirings⟩ := inductionHypothesis
          (closed.fireAll (queued.popDue_some due) queued.popDue.2) ended
        have enough := Nat.le_add_right bound 1
        have ends := sameEnd ▸ ended
        dsimp only
        rw [deliver_of_caughtUp enough ends, firings_of_caughtUp enough ends, sameEnd,
          List.append_assoc, restFirings]
        exact ⟨caughtUp, rfl, rfl⟩

/-- Two advances in a row fire the events that one advance of all their cycles fires, in the same
order and in the same cycles, and they leave the same machine. If that advance comes to its end, so
does either of them, and nothing stays granted: the second lets exactly its own cycles pass. So does
the first, but for what was granted before and is not delivered yet, which it delivers as well. -/
theorem advance_splits_anywhere (closed : ClosedUnder env events) {m : Machine World}
    (queued : m.Queued events) (cycles more : Nat)
    (ended : (advance env (cycles + more) m).2.CaughtUp) :
    let first := (advance env cycles m).2
    let second := (advance env more first).2
    firingsOf env cycles m ++ firingsOf env more first = firingsOf env (cycles + more) m ∧
      second = (advance env (cycles + more) m).2 ∧
      first.CaughtUp ∧ second.CaughtUp ∧
      first.clock.queue.budget = 0 ∧ second.clock.queue.budget = 0 ∧
      first.cycles = m.cycles + m.clock.queue.budget + cycles ∧
      second.cycles = first.cycles + more := by
  have grants : m.grant (cycles + more) = (m.grant cycles).grant more := by
    rw [grant, grant, DeltaQueue.advance, ← Nat.add_assoc]
    rfl
  have timeless : ∀ event, events event → Action.Respects Timeless (fire env event) :=
    fun event member => ⟨fun m => by
      rw [Timeless, DeltaQueue.agenda, DeltaQueue.agenda, (unhurried event member).count,
        (unhurried event member).budget]⟩
  rw [advance_eq, grants] at ended
  obtain ⟨caughtUp, same, sameFirings⟩ := deliver_grant unhurried closed (queued.grant cycles) ended
  intro first second
  have whole : second = (advance env (cycles + more) m).2 := by
    rw [advance_eq, grants]
    exact same
  have secondEnds : second.CaughtUp := (congrArg CaughtUp same).mpr ended
  have firstQueued : first.Queued events := closed.deliver env.patience (queued.grant cycles)
  have spent : first.clock.queue.budget = 0 := CaughtUp.budget caughtUp
  refine ⟨?_, whole, caughtUp, secondEnds, spent, CaughtUp.budget secondEnds, ?_, ?_⟩
  · rw [firingsOf, firingsOf, firingsOf, grants]
    exact sameFirings
  · exact cycles_advance timeless closed queued caughtUp
  · rw [cycles_advance timeless closed firstQueued secondEnds, spent, Nat.add_zero]

end Split

/-- The first event cancels another, schedules a third for the same cycle and a fourth for later. -/
def relay : Environment Unit :=
  { silence with
    notify := fun handle hook => do
      if hook = .event ∧ handle = ⟨0⟩ then
        let _ ← unschedule silence (.outside ⟨1⟩)
        schedule silence (.outside ⟨2⟩) 0
        schedule silence (.outside ⟨3⟩) 5
    patience := 9 }

theorem unhurried_relay (handle : Handle) (hook : Hook) : Unhurried (relay.notify handle hook) := by
  unfold relay
  dsimp only
  split
  · exact .bind (unhurried_unschedule _) fun _ =>
      .bind (unhurried_schedule _ _) fun _ => unhurried_schedule _ _
  · exact .pure _

/-- The split falls on the cycle of a cascade. -/
theorem advance_splits_anywhere_relay :
    let start := (do
      schedule silence (.outside ⟨0⟩) 3
      schedule silence (.outside ⟨1⟩) 4 : Action Unit Unit)
      (new smallPart ⟨.known 0, false, false⟩ ())
    firingsOf relay 10 start.2 = [⟨3, .outside ⟨0⟩⟩, ⟨3, .outside ⟨2⟩⟩, ⟨8, .outside ⟨3⟩⟩] ∧
      firingsOf relay 3 start.2 ++ firingsOf relay 7 (advance relay 3 start.2).2 =
        firingsOf relay 10 start.2 ∧
      (advance relay 3 start.2).2.cycles = 3 := by
  intro start
  have closed : ClosedUnder relay fun _ => True := fun _ _ => ⟨fun _ _ _ _ => trivial⟩
  have splits := advance_splits_anywhere
    (fun event _ => unhurried_fire unhurried_relay event) closed
    (m := start.2) (fun _ _ => trivial) 3 7 (by rw [CaughtUp]; decide +kernel)
  obtain ⟨sameFirings, -, -, -, -, -, firstCycles, -⟩ := splits
  exact ⟨by decide +kernel, sameFirings, firstCycles.trans (by decide +kernel)⟩

/-- An event that fires in cycle 10 of an advance by a hundred finds ninety cycles granted and not
delivered yet. Its callback calls for three more, with nothing queued, and gets to cycle 103. -/
theorem advance_within_delivery :
    let start := (schedule silence (.outside ⟨0⟩) 10 (new smallPart ⟨.known 0, false, false⟩ ())).2
    let granted := start.grant 100
    let inside := granted.setQueue granted.clock.queue.popDue.2
    granted.clock.queue.popDue.1 = some [.outside ⟨0⟩] ∧
      inside.clock.queue.agenda.entries = [] ∧ inside.cycles = 10 ∧
      (advance silence 3 inside).2.CaughtUp ∧ (advance silence 3 inside).2.cycles = 103 := by
  intro start granted inside
  refine ⟨?due, ?alone, ?now, ?caughtUp, ?later⟩
  case caughtUp =>
    unfold CaughtUp
    decide +kernel
  all_goals decide +kernel

end Machine

end Avr

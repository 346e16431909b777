import Avr.Proofs.Clock.Firings
import Avr.Proofs.Time.Renewal

/-!
Contract: advances of a clock on which only regular events are queued.

Owns:
- regular events: they leave the clock alone, except that a periodic one schedules itself again;
- a delivery of regular events ends, within as many batches as there are cycles to deliver;
- what it fires, as what the entries of the agenda come to.

Why it ends: only the first link may be due at once, and whatever fires is scheduled for later, so
every further batch takes at least one of the granted cycles.
-/

namespace Avr.Machine

open Avr.Time

variable {World : Type} {env : Environment World} {m : Machine World}

/-- An event that does not touch the clock. -/
def Still (env : Environment World) (event : Event) : Prop :=
  ∀ m, (fire env event m).2.clock = m.clock

/-- An event that does not touch the clock, or one that does not and fires again and again. -/
def Regular (env : Environment World) : Event → Prop
  | .periodic _ event period => 0 < period ∧ Still env event
  | event => Still env event

/-- The queue once an event has fired. -/
def renew (event : Event) (q : DeltaQueue Event) : DeltaQueue Event :=
  match event with
  | .periodic _ _ period => q.add event period
  | _ => q

theorem queue_fire {event : Event} (regular : Regular env event) (m : Machine World) :
    (fire env event m).2.clock.queue = renew event m.clock.queue := by
  cases event with
  | periodic handle event period =>
      exact congrArg Clock.queue (regular.2 (schedule env _ period m).2)
  | outside | timeout | spmReset | pageOperation | arrival =>
      exact congrArg Clock.queue (regular m)

section Renew

variable (event : Event) (q : DeltaQueue Event)

theorem count_renew : (renew event q).count = q.count := by
  cases event <;> rfl

theorem budget_renew : (renew event q).budget = q.budget := by
  cases event <;> rfl

variable {event q}

theorem tidy_renew (tidy : DeltaQueue.Tidy q.links) : DeltaQueue.Tidy (renew event q).links := by
  cases event with
  | periodic handle event period => exact DeltaQueue.tidy_insert _ period tidy
  | outside | timeout | spmReset | pageOperation | arrival => exact tidy

theorem spaced_renew (regular : Regular env event) (spaced : DeltaQueue.Spaced q.links) :
    DeltaQueue.Spaced (renew event q).links := by
  cases event with
  | periodic handle event period => exact DeltaQueue.spaced_insert spaced regular.1
  | outside | timeout | spmReset | pageOperation | arrival => exact spaced

theorem entries_renew (tidy : DeltaQueue.Tidy q.links) :
    (renew event q).agenda.entries = renewed ⟨q.count, event⟩ q.agenda.entries := by
  cases event with
  | periodic handle event period =>
      exact congrArg Agenda.entries
        (DeltaQueue.agenda_add tidy (.periodic handle event period) period)
  | outside | timeout | spmReset | pageOperation | arrival => rfl

end Renew

theorem closedUnder_regular : ClosedUnder env (Regular env) := by
  refine fun event regular => ⟨fun m queued => ?_⟩
  have fired : (fire env event m).2.Queued (Regular env) ↔
      (m.setQueue (renew event m.clock.queue)).Queued (Regular env) := by
    rw [Queued, Queued, queue_fire regular]
    rfl
  rw [fired]
  cases event with
  | periodic handle event period => exact queued.add regular period
  | outside | timeout | spmReset | pageOperation | arrival => exact queued

theorem timeless_regular (event : Event) (regular : Regular env event) :
    Action.Respects Timeless (fire env event) :=
  ⟨fun m => by
    rw [Timeless, queue_fire regular, DeltaQueue.agenda, DeltaQueue.agenda, count_renew,
      budget_renew]⟩

/-! ### One batch -/

section Batch

variable {batch : List Event} (regular : ∀ event ∈ batch, Regular env event)
include regular

/-- What a property of queues that every event keeps is kept by a batch. -/
theorem keeps_fireAll {P : DeltaQueue Event → Prop}
    (keeps : ∀ event q, Regular env event → P q → P (renew event q)) (holds : P m.clock.queue) :
    P (batch.forM (fire env) m).2.clock.queue := by
  induction batch generalizing m with
  | nil => exact holds
  | cons event rest inductionHypothesis =>
      obtain ⟨first, others⟩ := List.forall_mem_cons.mp regular
      refine inductionHypothesis others ?_
      rw [queue_fire first]
      exact keeps event _ first holds

/-- The events of a batch fire as the entries at the front of the agenda. -/
theorem elapsed_fireAll {horizon : Nat} {fired left : List (Entry Event)}
    (tidy : DeltaQueue.Tidy m.clock.queue.links) (due : m.cycles ≤ horizon)
    (rest : Elapsed horizon (batch.forM (fire env) m).2.clock.queue.agenda.entries fired left) :
    Elapsed horizon (batch.map (Entry.mk m.cycles) ++ m.clock.queue.agenda.entries)
      (firedOf env batch m ++ fired) left := by
  induction batch generalizing m with
  | nil => exact rest
  | cons event others inductionHypothesis =>
      obtain ⟨first, othersRegular⟩ := List.forall_mem_cons.mp regular
      have queue := queue_fire first m
      have cycles : (fire env event m).2.cycles = m.cycles :=
        (congrArg DeltaQueue.count queue).trans (count_renew event _)
      have later := inductionHypothesis othersRegular (m := (fire env event m).2)
        (queue ▸ tidy_renew tidy) (cycles.symm ▸ due) rest
      rw [cycles, queue, entries_renew tidy] at later
      -- What the event enters lies behind the rest of its batch.
      have sameTime : ∀ other ∈ others.map (Entry.mk m.cycles), other.time ≤ m.cycles := by
        intro other member
        obtain ⟨_, _, rfl⟩ := List.mem_map.mp member
        exact Nat.le_refl _
      rw [firedOf, List.map_cons, List.cons_append, List.cons_append]
      refine .fire due ?_
      rw [renewed_append sameTime]
      exact later

end Batch

/-! ### A delivery -/

theorem spaced_fireAll {batch : List Event} (regular : ∀ event ∈ batch, Regular env event)
    (spaced : DeltaQueue.Spaced m.clock.queue.links) :
    DeltaQueue.Spaced (batch.forM (fire env) m).2.clock.queue.links :=
  keeps_fireAll (P := fun q => DeltaQueue.Spaced q.links) regular
    (fun _ _ first => spaced_renew first) spaced

theorem budget_fireAll {batch : List Event} (regular : ∀ event ∈ batch, Regular env event)
    (m : Machine World) :
    (batch.forM (fire env) m).2.clock.queue.budget = m.clock.queue.budget :=
  keeps_fireAll (P := fun q => q.budget = m.clock.queue.budget) regular
    (fun event q _ => (budget_renew event q).trans) rfl

/-- The links behind the one that is handed out are spaced, and cost its cycles. -/
theorem popDue_some {q : DeltaQueue Event} {batch : List Event} (due : q.popDue.1 = some batch) :
    ∃ head rest, q.links = head :: rest ∧ head.delta ≤ q.budget ∧
      q.popDue.2 = ⟨rest, q.count + head.delta, q.budget - head.delta⟩ := by
  obtain ⟨links, count, budget⟩ := q
  cases links with
  | nil => cases due
  | cons head rest =>
      rcases Nat.lt_or_ge budget head.delta with ahead | within
      · rw [DeltaQueue.popDue_of_lt ahead] at due
        cases due
      · exact ⟨head, rest, rfl, within, congrArg Prod.snd (DeltaQueue.popDue_of_le within)⟩

/-- Spaced links are handed out in as many batches as there are cycles to deliver. -/
theorem caughtUp_of_spaced {bound : Nat} (spaced : DeltaQueue.Spaced m.clock.queue.links)
    (queued : m.Queued (Regular env)) (enough : m.clock.queue.budget < bound) :
    (deliver env bound m).2.CaughtUp := by
  induction bound generalizing m with
  | zero => exact absurd enough (Nat.not_lt_zero _)
  | succ bound inductionHypothesis =>
      rcases due : m.clock.queue.popDue.1 with _ | batch
      · rw [deliver_of_none due]
        exact caughtUp_of_none due
      · rw [deliver_of_some due]
        have regular := queued.popDue_some due
        obtain ⟨head, rest, links, within, popped⟩ := popDue_some due
        obtain ⟨⟨positive, _⟩, restSpaced⟩ := DeltaQueue.spaced_cons.mp (links ▸ spaced)
        refine inductionHypothesis (spaced_fireAll regular ?_)
          (closedUnder_regular.fireAll regular queued.popDue.2) ?_
        · rw [setQueue, popped]
          exact restSpaced
        · rw [budget_fireAll regular, setQueue, popped]
          dsimp only
          omega

/-- Only the first batch may be due in the cycle in which the delivery begins. -/
theorem caughtUp_deliver {bound : Nat} (tidy : DeltaQueue.Tidy m.clock.queue.links)
    (queued : m.Queued (Regular env)) (enough : m.clock.queue.budget + 2 ≤ bound) :
    (deliver env bound m).2.CaughtUp := by
  obtain ⟨bound, rfl⟩ := Nat.exists_eq_add_of_le' (Nat.le_of_add_left_le enough)
  rcases due : m.clock.queue.popDue.1 with _ | batch
  · rw [deliver_of_none due]
    exact caughtUp_of_none due
  · rw [deliver_of_some due]
    have regular := queued.popDue_some due
    obtain ⟨head, rest, links, within, popped⟩ := popDue_some due
    have restSpaced : DeltaQueue.Spaced rest := (links ▸ tidy).2
    refine caughtUp_of_spaced (spaced_fireAll regular ?_)
      (closedUnder_regular.fireAll regular queued.popDue.2) ?_
    · rw [setQueue, popped]
      exact restSpaced
    · rw [budget_fireAll regular, setQueue, popped]
      dsimp only
      omega

/-- A delivery that ends fires what the entries of the agenda come to. -/
theorem elapsed_deliver {bound : Nat} (tidy : DeltaQueue.Tidy m.clock.queue.links)
    (queued : m.Queued (Regular env)) (ended : (deliver env bound m).2.CaughtUp) :
    DeltaQueue.Tidy (deliver env bound m).2.clock.queue.links ∧
      Elapsed m.clock.queue.agenda.horizon m.clock.queue.agenda.entries (firings env bound m)
        (deliver env bound m).2.clock.queue.agenda.entries := by
  induction bound generalizing m with
  | zero => exact ⟨tidy, .idle (DeltaQueue.horizon_lt_of_popDue_eq_none (congrArg Prod.fst ended))⟩
  | succ bound inductionHypothesis =>
      have popTidy := DeltaQueue.tidy_perform .popDue tidy
      have split := m.clock.queue.entries_popDue
      rcases due : m.clock.queue.popDue.1 with _ | batch
      · rw [deliver_of_none due, firings_of_none due]
        rw [due] at split
        refine ⟨popTidy, ?_⟩
        have later := DeltaQueue.horizon_lt_of_popDue_eq_none due
        rw [split] at later ⊢
        exact .idle later
      · rw [due, Option.getD_some] at split
        rw [deliver_of_some due] at ended ⊢
        rw [firings_of_some due]
        have regular := queued.popDue_some due
        obtain ⟨lastTidy, rest⟩ := inductionHypothesis
          (keeps_fireAll (P := fun q => DeltaQueue.Tidy q.links) regular
            (fun _ _ _ => tidy_renew) popTidy)
          (closedUnder_regular.fireAll regular queued.popDue.2) ended
        refine ⟨lastTidy, ?_⟩
        rw [timeless_fireAll timeless_regular regular, timeless_popDue] at rest
        have now : m.clock.queue.popDue.2.count ≤ m.clock.queue.agenda.horizon := by
          rw [← timeless_popDue m]
          exact Nat.le_add_right _ _
        rw [split]
        exact elapsed_fireAll regular (m := m.setQueue m.clock.queue.popDue.2) popTidy now rest

/-! ### An advance -/

/-- Between two advances, nothing but regular events is on the clock. -/
structure Orderly (env : Environment World) (m : Machine World) : Prop where
  tidy : DeltaQueue.Tidy m.clock.queue.links
  spent : m.clock.queue.budget = 0
  queued : m.Queued (Regular env)

theorem Orderly.advanced {cycles : Nat} (orderly : Orderly env m)
    (patient : cycles + 2 ≤ env.patience) :
    let next := (advance env cycles m).2
    Orderly env next ∧ next.cycles = m.cycles + cycles ∧
      Elapsed next.cycles m.clock.queue.agenda.entries (firingsOf env cycles m)
        next.clock.queue.agenda.entries := by
  have granted : (m.grant cycles).clock.queue.budget = cycles :=
    (congrArg (· + cycles) orderly.spent).trans (Nat.zero_add cycles)
  have ended : (advance env cycles m).2.CaughtUp :=
    caughtUp_deliver orderly.tidy (orderly.queued.grant cycles) (granted.symm ▸ patient)
  have passes := cycles_advance timeless_regular closedUnder_regular orderly.queued ended
  obtain ⟨tidy, elapsed⟩ := elapsed_deliver (m := m.grant cycles) orderly.tidy
    (orderly.queued.grant cycles) ended
  have horizon : (m.grant cycles).clock.queue.agenda.horizon =
      (advance env cycles m).2.cycles := by
    rw [passes, Nat.add_assoc]
    rfl
  rw [horizon] at elapsed
  rw [orderly.spent, Nat.add_zero] at passes
  exact ⟨⟨tidy, ended.budget, closedUnder_regular.deliver _ (orderly.queued.grant cycles)⟩, passes,
    elapsed⟩

end Avr.Machine

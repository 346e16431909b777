import Avr.Proofs.Clock.Accounts
import Avr.Proofs.Time.Ticks

/-!
Contract: events that are scheduled in the ticks of a prescaled clock.

Owns:
- an event that is added to a queue, up to the batch that it is handed out in;
- an event in ticks: when it is handed out, and when it fires;
- an event that fires late, because another one of its batch lets time pass, and one that is placed
  early, because no word can hold where its tick begins.

A queue hands an event out in its own cycle whatever is done meanwhile. It fires in that cycle if
the events that fire before it let no time pass.
-/

namespace Avr

open Avr.Time

namespace Time.DeltaQueue

universe u

variable {α : Type u} {q : DeltaQueue α}

/-- What has become of an entry in a history of the queue: it was delivered in its cycle or removed,
or it is still queued, and then lies beyond everything granted once nothing is due. -/
inductive Fate (entry : Entry α) (operations : List (Operation α)) (q : DeltaQueue α) : Prop where
  | delivered (member : entry ∈ (ledger operations q).delivered)
  | removed (member : entry ∈ (ledger operations q).removed)
  | queued (member : entry ∈ (conduct perform operations q).2.agenda.entries)
      (later : (conduct perform operations q).2.popDue.1 = none →
        (conduct perform operations q).2.agenda.horizon < entry.time)

theorem fate_of_mem (tidy : Tidy q.links) {entry : Entry α} (member : entry ∈ q.agenda.entries)
    (operations : List (Operation α)) : Fate entry operations q := by
  have balanced := ledger_balanced operations tidy
  have left : entry ∈ ((ledger operations q).delivered + (ledger operations q).removed +
      (conduct perform operations q).2.agenda.entries : Multiset (Entry α)) := by
    rw [← balanced]
    exact Multiset.mem_add.mpr (.inl member)
  rcases Multiset.mem_add.mp left with gone | queued
  · rcases Multiset.mem_add.mp gone with delivered | removed
    · exact .delivered delivered
    · exact .removed removed
  · exact .queued queued fun nothing => horizon_lt_of_popDue_eq_none nothing entry queued

theorem mem_agenda_add (tidy : Tidy q.links) (event : α) (delay : Nat) :
    ⟨q.count + delay, event⟩ ∈ (q.add event delay).agenda.entries := by
  rw [agenda_add tidy]
  exact (Agenda.entries_add_perm _ event delay).mem_iff.mpr List.mem_cons_self

/-- An event without a delay is in the next batch, in the current cycle. -/
theorem popDue_add_zero (q : DeltaQueue α) (event : α) :
    ∃ batch, (q.add event 0).popDue.1 = some batch ∧ event ∈ batch ∧
      (q.add event 0).popDue.2.count = q.count := by
  obtain ⟨links, count, budget⟩ := q
  unfold add popDue
  dsimp only
  cases links with
  | nil => exact ⟨[event], rfl, List.mem_singleton_self event, rfl⟩
  | cons head rest =>
      unfold insert
      by_cases ahead : 0 < head.delta
      · rw [if_pos ahead]
        dsimp only
        rw [if_pos (Nat.zero_le budget)]
        exact ⟨[event], rfl, List.mem_singleton_self event, rfl⟩
      · have now : 0 = head.delta := by omega
        rw [if_neg ahead, if_pos now]
        dsimp only
        rw [← now, if_pos (Nat.zero_le budget)]
        exact ⟨head.events ++ [event], rfl,
          List.mem_append_right _ (List.mem_singleton_self event), rfl⟩

end Time.DeltaQueue

namespace Machine

variable {World : Type} {env : Environment World} {m last : Machine World}

/-- An occurrence that is queued fires in its cycle, once the clock has come to it, and not before.
Together with those in hand, those queued before and those added it is all that fires of the event
or is still queued. -/
structure FiresInTime (entry : Entry Event) (Added : Entry Event → Prop)
    (others fired : List (Entry Event)) (last : Machine World) : Prop where
  fires : entry.time ≤ last.cycles → entry ∈ fired
  waits : last.cycles < entry.time → entry ∉ fired ∧ entry ∈ last.occurrences entry.event
  balance : ∃ added : Multiset (Entry Event), (∀ other ∈ added, Added other) ∧
    (occurringIn entry.event fired + last.occurrences entry.event : Multiset (Entry Event)) =
      entry ::ₘ occurringIn entry.event others + added

/-- Of what becomes of an event that is scheduled while others do as they like, but let no time
pass. -/
theorem firesInTime {event : Event} {Added : Entry Event → Prop} {events : Event → Prop}
    (company : Company env event Added events) (member : events event) (queued : m.Queued events)
    (tidy : DeltaQueue.Tidy m.clock.queue.links) (delay : Nat) {inHand : List Event}
    {fired : List (Entry Event)}
    (elapses : Elapses env event Added events (schedule env event delay m).2 inHand fired last)
    (caughtUp : last.CaughtUp) :
    FiresInTime ⟨m.cycles + delay, event⟩ Added
      (inHand.map (Entry.mk m.cycles) ++ m.clock.queue.agenda.entries) fired last := by
  have scheduled : (schedule env event delay m).2.clock.queue = m.clock.queue.add event delay := rfl
  have startTidy : DeltaQueue.Tidy (schedule env event delay m).2.clock.queue.links := by
    rw [scheduled]
    exact DeltaQueue.tidy_insert event delay tidy
  have startQueued : (schedule env event delay m).2.Queued events := by
    unfold Queued
    rw [scheduled]
    exact queued.add member delay
  obtain ⟨accounts, -⟩ := elapses.accounts company startTidy startQueued
  have entered : ((schedule env event delay m).2.occurrences event : Multiset (Entry Event)) =
      ⟨m.cycles + delay, event⟩ ::ₘ (m.occurrences event : Multiset (Entry Event)) := by
    rw [occurrences, scheduled]
    exact Multiset.coe_eq_coe.mpr
      (DeltaQueue.selected_add tidy event (decide_eq_true rfl) delay)
  obtain ⟨added, adds, balance⟩ := accounts.balance
  have whole : (occurringIn event fired + last.occurrences event : Multiset (Entry Event)) =
      ⟨m.cycles + delay, event⟩ ::ₘ
        occurringIn event (inHand.map (Entry.mk m.cycles) ++ m.clock.queue.agenda.entries) +
          added := by
    rw [balance, entered, occurringIn_append, ← Multiset.coe_add, Multiset.add_cons]
    rfl
  have somewhere : ⟨m.cycles + delay, event⟩ ∈
      (occurringIn event fired + last.occurrences event : Multiset (Entry Event)) := by
    rw [whole, Multiset.cons_add]
    exact Multiset.mem_cons_self _ _
  have cases := Multiset.mem_add.mp somewhere
  refine ⟨?_, ?_, added, adds, whole⟩
  · intro reached
    rcases cases with inFired | waiting
    · exact (mem_occurringIn.mp inFired).1
    · exact absurd reached (Nat.not_le.mpr (caughtUp.ahead _ waiting))
  · intro ahead
    have unfired : ⟨m.cycles + delay, event⟩ ∉ fired := by
      intro inFired
      exact absurd (accounts.inTime _ inFired) (Nat.not_le.mpr ahead)
    refine ⟨unfired, cases.resolve_left ?_⟩
    intro inFired
    exact unfired (mem_occurringIn.mp inFired).1

/-- The count of a prescaler is the whole ticks of the stretches between its creation, its resets
and now; it never goes back, and a reset keeps it.

An event that is scheduled some ticks ahead is placed on the first driver cycle at which the count
is so much higher, as long as a word can hold where that tick begins; with none it is in the next
batch, in the current cycle. The queue hands it out
in that cycle, unless it is removed. If what fires lets no time pass and does not cancel it, it also
fires in that cycle and not before. -/
theorem prescaled_events_fire_on_their_ticks {divider since : Nat} {ended : List Nat}
    {p : Prescaler} (driven : p.Driven divider ended since m.cycles)
    {operations : List (Time.Operation Event)}
    (past : (conduct DeltaQueue.perform operations DeltaQueue.empty).2 = m.clock.queue) :
    p.count m.cycles = Prescaler.ticksIn divider (ended ++ [m.cycles - since]) ∧
    (∀ later, m.cycles ≤ later → p.count m.cycles ≤ p.count later) ∧
    (p.reset m.cycles).count m.cycles = p.count m.cycles ∧
    ∀ (event : Event) (ticks : Nat),
      let entry : Entry Event := ⟨m.cycles + p.delay m.cycles ticks, event⟩
      let scheduled := (schedule env event (p.delay m.cycles ticks) m).2
      (1 ≤ ticks → (p.elapsed m.cycles / p.divider + ticks) * p.divider < wordLimit →
        p.FirstAt m.cycles (p.count m.cycles + ticks) entry.time) ∧
      (ticks = 0 → entry.time = m.cycles ∧
        ∃ batch, scheduled.clock.queue.popDue.1 = some batch ∧ event ∈ batch ∧
          scheduled.clock.queue.popDue.2.count = m.cycles) ∧
      (∀ more, DeltaQueue.Fate entry more scheduled.clock.queue) ∧
      ∀ (Added : Entry Event → Prop) (events : Event → Prop),
        Company env event Added events → events event → m.Queued events →
        ∀ inHand fired last, Elapses env event Added events scheduled inHand fired last →
          last.CaughtUp →
          FiresInTime entry Added
            (inHand.map (Entry.mk m.cycles) ++ m.clock.queue.agenda.entries) fired last := by
  have tidy : DeltaQueue.Tidy m.clock.queue.links := by
    have empty : DeltaQueue.Tidy (DeltaQueue.empty : DeltaQueue Event).links := trivial
    rw [← past]
    exact (DeltaQueue.conduct_agenda operations empty).1
  have remembers := driven.remembers
  refine ⟨remembers.count_eq, fun _ => p.count_le_count, p.count_reset m.cycles, ?_⟩
  intro event ticks entry scheduled
  refine ⟨remembers.firstAt, ?_, ?_, ?_⟩
  · rintro rfl
    have queue : scheduled.clock.queue = m.clock.queue.add event 0 :=
      congrArg (m.clock.queue.add event) (p.delay_zero m.cycles)
    rw [queue]
    refine ⟨?_, DeltaQueue.popDue_add_zero m.clock.queue event⟩
    show m.cycles + p.delay m.cycles 0 = m.cycles
    rw [p.delay_zero, Nat.add_zero]
  · intro more
    apply DeltaQueue.fate_of_mem
    · exact DeltaQueue.tidy_insert event (p.delay m.cycles ticks) tidy
    · exact DeltaQueue.mem_agenda_add tidy event (p.delay m.cycles ticks)
  · intro Added events company member queued inHand fired last elapses caughtUp
    exact firesInTime company member queued tidy _ elapses caughtUp

/-- Nothing but waiting, with patience for some batches. -/
def waiting : Environment Unit :=
  { silence with patience := 9 }

/-- A prescaler by eight, created at cycle 3 and reset in the middle of a tick at cycle 10, is asked
at cycle 16 for an event one tick ahead. -/
theorem prescaled_events_fire_on_their_ticks_reset :
    let m := (advance waiting 16 (new smallPart ⟨.known 0, false, false⟩ ())).2
    let p := (Prescaler.new 3 8).reset 10
    let event := Event.outside ⟨5⟩
    let scheduled := (schedule waiting event (p.delay m.cycles 1) m).2
    m.cycles = 16 ∧ p.count 16 = 0 ∧ p.FirstAt 16 1 18 ∧
      (advance waiting 20 scheduled).2.cycles = 36 ∧
      ⟨18, event⟩ ∈ firingsOf waiting 20 scheduled := by
  intro m p event scheduled
  have now : m.cycles = 16 := by decide +kernel
  have driven : p.Driven 8 [7] 10 m.cycles := by
    rw [now]
    exact .advance (.reset (.advance (.created 3) (by decide : 3 ≤ 10))) (by decide)
  have past : (conduct DeltaQueue.perform [.advance 16, .popDue] DeltaQueue.empty).2 =
      m.clock.queue := by
    decide +kernel
  obtain ⟨-, -, -, events⟩ :=
    @prescaled_events_fire_on_their_ticks Unit waiting m 8 10 [7] p driven _ past
  obtain ⟨first, -, -, fires⟩ := events event 1
  have alone : Company waiting event (fun _ => False) fun other => other = event :=
    { closed := by
        rintro other rfl
        exact ⟨fun _ queued => queued⟩
      gathers := by
        rintro other rfl
        exact ⟨fun _ => .of_eq rfl⟩ }
  have queued : m.Queued fun other => other = event := by
    have empty : m.clock.queue.agenda.entries = [] := by decide +kernel
    unfold Queued
    rw [empty]
    exact nofun
  let nothing : Pending Unit := ⟨pure (), [], 0⟩
  have hand : ∀ other ∈ nothing.inHand, other = event := nofun
  have elapses : Elapses waiting event (fun _ => False) (fun other => other = event) scheduled []
      (firingsOf waiting 20 scheduled) (advance waiting 20 scheduled).2 :=
    .advance (.resume hand (.pure _) (.pure _)) 20
  have caughtUp : (advance waiting 20 scheduled).2.CaughtUp := by
    unfold CaughtUp
    decide +kernel
  have inTime := fires _ _ alone rfl queued _ _ _ elapses caughtUp
  have reached : (advance waiting 20 scheduled).2.cycles = 36 := by decide +kernel
  have time : m.cycles + p.delay m.cycles 1 = 18 := by decide +kernel
  have count : p.count m.cycles + 1 = 1 := by decide +kernel
  have firstAt := first (Nat.le_refl 1) (by decide +kernel)
  rw [time, count, now] at firstAt
  refine ⟨now, by decide +kernel, firstAt, reached, ?_⟩
  have fired := inTime.fires
  rw [time, reached] at fired
  exact fired (by decide)

/-- The first event lets five cycles pass. -/
def dawdling : Environment Unit :=
  { waiting with
    notify := fun handle hook => do
      if hook = .event ∧ handle = ⟨0⟩ then
        advance waiting 5 }

/-- An event one tick ahead is handed out with another one that lets time pass, and fires after it:
not in the first cycle in which the tick is counted. An event `2 ^ 58` ticks ahead, each of 64
cycles, is placed in the current cycle, since the boundary wraps around. -/
theorem prescaled_event_fires_late :
    let p := Prescaler.new 0 8
    let start := (do
      schedule dawdling (.outside ⟨0⟩) 8
      schedule dawdling (.outside ⟨1⟩) (p.delay 0 1) : Action Unit Unit)
      (new smallPart ⟨.known 0, false, false⟩ ())
    (p.count 0 = 0 ∧ p.FirstAt 0 1 8 ∧
      firingsOf dawdling 8 start.2 = [⟨8, .outside ⟨0⟩⟩, ⟨13, .outside ⟨1⟩⟩]) ∧
      (Prescaler.new 0 64).delay 0 (2 ^ 58) = 0 := by
  intro p start
  have driven : p.Driven 8 [] 0 0 := .created 0
  have first : p.FirstAt 0 (p.count 0 + 1) (0 + p.delay 0 1) :=
    driven.remembers.firstAt (Nat.le_refl 1) (by decide)
  have count : p.count 0 = 0 := by decide
  have time : 0 + p.delay 0 1 = 8 := by decide
  rw [count, time] at first
  exact ⟨⟨count, first, by decide +kernel⟩, by decide +kernel⟩

end Machine

end Avr

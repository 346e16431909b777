import Avr.Proofs.Time.Timeline

/-!
Contract: a queue of events keeps an agenda.

Owns:
- agendas, in which every event is listed with its absolute time;
- what each operation does to an agenda, and that queues do the same;
- the record of a history: what was entered, delivered and removed, and when.

An agenda has no differences between times in it, so nothing can shift there; the queue is compared
with it after any operations in any order.
-/

namespace Avr.Time

universe u v

/-- Queued events with absolute times; those of one time are listed in order of insertion. -/
structure Agenda (α : Type u) where
  entries : List (Entry α)
  now : Nat
  /-- The cycle up to which time has been granted. -/
  horizon : Nat
deriving DecidableEq, Repr

namespace Agenda

variable {α : Type u}

def empty : Agenda α := ⟨[], 0, 0⟩

/-- Enter an event behind all that is due at its time or before. -/
def add (a : Agenda α) (event : α) (cycles : Nat) : Agenda α :=
  { a with
    entries :=
      a.entries.filter (fun entry => entry.time ≤ a.now + cycles) ++
        ⟨a.now + cycles, event⟩ ::
          a.entries.filter (fun entry => a.now + cycles < entry.time) }

theorem entries_add_perm (a : Agenda α) (event : α) (cycles : Nat) :
    (a.add event cycles).entries.Perm (⟨a.now + cycles, event⟩ :: a.entries) := by
  have after : ∀ entry : Entry α,
      decide (a.now + cycles < entry.time) = !decide (entry.time ≤ a.now + cycles) := by
    intro entry
    rw [← decide_not, decide_eq_decide, Nat.not_le]
  simp only [add, after]
  exact List.perm_middle.trans ((List.filter_append_perm _ a.entries).cons _)

def countMatching (a : Agenda α) (matching : α → Bool) : Nat :=
  a.entries.countP fun entry => matching entry.event

def removeMatching (a : Agenda α) (matching : α → Bool) : Agenda α :=
  { a with entries := a.entries.filter fun entry => !matching entry.event }

def advance (a : Agenda α) (cycles : Nat) : Agenda α :=
  { a with horizon := a.horizon + cycles }

def earliest? (a : Agenda α) : Option Nat :=
  (a.entries.map Entry.time).min?

/-- Hand out all events of the earliest time if it is within the horizon; else go on to the
horizon. -/
def popDue (a : Agenda α) : Option (List α) × Agenda α :=
  match a.earliest? with
  | none => (none, { a with now := a.horizon })
  | some time =>
    if time ≤ a.horizon then
      (some ((a.entries.filter fun entry => entry.time = time).map Entry.event),
        { a with entries := a.entries.filter (fun entry => entry.time ≠ time), now := time })
    else
      (none, { a with now := a.horizon })

/-- Cycles from the horizon to the earliest event, zero if it is due already. -/
def untilNext? (a : Agenda α) : Option Nat :=
  a.earliest?.map fun time => time - a.horizon

end Agenda

namespace DeltaQueue

variable {α : Type u}

def agenda (q : DeltaQueue α) : Agenda α where
  entries := timeline q.count q.links
  now := q.count
  horizon := q.count + q.budget

/-! ### Operations -/

theorem agenda_empty : (empty : DeltaQueue α).agenda = Agenda.empty := rfl

theorem agenda_add {q : DeltaQueue α} (tidy : Tidy q.links) (event : α) (cycles : Nat) :
    (q.add event cycles).agenda = q.agenda.add event cycles := by
  simp only [agenda, add, Agenda.add]
  rw [timeline_insert q.count cycles event tidy]
  rfl

theorem agenda_removeMatching (q : DeltaQueue α) (matching : α → Bool) :
    (q.removeMatching matching).agenda = q.agenda.removeMatching matching := by
  simp only [agenda, removeMatching, Agenda.removeMatching]
  rw [timeline_sweep, Nat.add_zero]

theorem agenda_advance (q : DeltaQueue α) (cycles : Nat) :
    (q.advance cycles).agenda = q.agenda.advance cycles := by
  simp only [agenda, advance, Agenda.advance, Nat.add_assoc]

theorem countMatching_agenda (q : DeltaQueue α) (matching : α → Bool) :
    q.countMatching matching = q.agenda.countMatching matching := by
  have counted : ∀ (start : Nat) (links : List (Link α)),
      links.foldr (fun link rest => link.events.countP matching + rest) 0 =
        (timeline start links).countP fun entry => matching entry.event := by
    intro start links
    induction links generalizing start with
    | nil => rfl
    | cons link rest inductionHypothesis =>
        rw [List.foldr_cons, inductionHypothesis (start + link.delta), timeline,
          List.countP_append, List.countP_map]
        rfl
  exact counted q.count q.links

/-- The earliest time of a queue that is not empty is that of its first link. -/
theorem earliest?_timeline {start : Nat} {head : Link α} {rest : List (Link α)}
    (tidy : Tidy (head :: rest)) :
    ((timeline start (head :: rest)).map Entry.time).min? = some (start + head.delta) := by
  rw [List.min?_eq_some_iff]
  constructor
  · obtain ⟨event, others, filled⟩ := List.exists_cons_of_ne_nil tidy.1
    simp [timeline, filled]
  · intro time member
    obtain ⟨entry, isEntry, rfl⟩ := List.mem_map.mp member
    simp only [timeline, List.mem_append, List.mem_map] at isEntry
    rcases isEntry with ⟨event, _, rfl⟩ | inRest
    · exact Nat.le_refl _
    · exact le_time_of_mem_timeline inRest

theorem timeline_split (start : Nat) {head : Link α} {rest : List (Link α)}
    (tidy : Tidy (head :: rest)) :
    (timeline start (head :: rest)).filter (fun entry => entry.time = start + head.delta) =
        head.events.map (Entry.mk (start + head.delta)) ∧
      (timeline start (head :: rest)).filter (fun entry => entry.time ≠ start + head.delta) =
        timeline (start + head.delta) rest := by
  have later : ∀ entry ∈ timeline (start + head.delta) rest, entry.time ≠ start + head.delta :=
    fun entry member => Nat.ne_of_gt (lt_time_of_mem_timeline tidy.2 member)
  have restDropped : (timeline (start + head.delta) rest).filter
      (fun entry => entry.time = start + head.delta) = [] := by
    rw [List.filter_eq_nil_iff]
    intro entry member
    simpa using later entry member
  have restKept : (timeline (start + head.delta) rest).filter
      (fun entry => entry.time ≠ start + head.delta) = timeline (start + head.delta) rest := by
    rw [List.filter_eq_self]
    intro entry member
    simpa using later entry member
  constructor
  · rw [timeline, List.filter_append, restDropped,
      filter_sameTime (fun time => time = start + head.delta)]
    simp
  · rw [timeline, List.filter_append, restKept,
      filter_sameTime (fun time => time ≠ start + head.delta)]
    simp

theorem agenda_earliest? {q : DeltaQueue α} (tidy : Tidy q.links) :
    q.agenda.earliest? = q.links.head?.map fun link => q.count + link.delta := by
  obtain ⟨links, count, budget⟩ := q
  cases links with
  | nil => rfl
  | cons head rest => exact earliest?_timeline tidy

theorem agenda_popDue {q : DeltaQueue α} (tidy : Tidy q.links) :
    (q.popDue.1, q.popDue.2.agenda) = q.agenda.popDue := by
  obtain ⟨links, count, budget⟩ := q
  cases links with
  | nil => simp [popDue, agenda, timeline, Agenda.popDue, Agenda.earliest?]
  | cons head rest =>
      have earliest : (agenda ⟨head :: rest, count, budget⟩).earliest? =
          some (count + head.delta) := agenda_earliest? tidy
      obtain ⟨batch, others⟩ := timeline_split count tidy
      rw [Agenda.popDue, earliest]
      simp only [popDue, agenda, Nat.add_le_add_iff_left]
      split
      · next due =>
        have horizonKept : count + head.delta + (budget - head.delta) = count + budget := by omega
        rw [batch, others]
        simp [horizonKept, Function.comp_def]
      · next notDue =>
        have resumed : count + budget + (head.delta - budget) = count + head.delta := by omega
        simp [timeline, resumed]

theorem headDelta?_agenda {q : DeltaQueue α} (tidy : Tidy q.links) :
    q.headDelta? = q.agenda.untilNext? := by
  rw [Agenda.untilNext?, agenda_earliest? tidy, headDelta?, Option.map_map]
  congr 1
  funext link
  exact (Nat.add_sub_add_left q.count link.delta q.budget).symm

end DeltaQueue

end Avr.Time

import Avr.Proofs.Time.Agenda
import Mathlib.Algebra.Order.Group.Multiset
import Mathlib.Data.Multiset.Filter
import Mathlib.Tactic.Abel

/-!
Contract: histories of a queue.

Owns:
- operations as data, their answers, and what a list of them does;
- the ledger of a history: every event that was entered, delivered or removed, with its time.

The first theorem compares the answers of a queue with those of an agenda; the ledger then accounts
for every event: none is lost, delivered twice, or delivered at another time than it was entered
for.
-/

namespace Avr.Time

universe u v

inductive Operation (α : Type u) where
  | add (event : α) (cycles : Nat)
  | remove (matching : α → Bool)
  | advance (cycles : Nat)
  | popDue

def Operation.granted {α : Type u} : Operation α → Nat
  | .advance cycles => cycles
  | .add _ _ | .remove _ | .popDue => 0

inductive Answer (α : Type u) where
  | done
  | removed (count : Nat)
  | batch (events : Option (List α))
deriving DecidableEq, Repr

/-- Perform operations one after the other, collecting the answers. -/
def conduct {α : Type u} {State : Type v} (perform : Operation α → State → Answer α × State) :
    List (Operation α) → State → List (Answer α) × State
  | [], state => ([], state)
  | operation :: rest, state =>
    let (answer, next) := perform operation state
    let (answers, final) := conduct perform rest next
    (answer :: answers, final)

/-- Events that were entered, delivered and removed. A delivered one has the cycle at which it was
handed out. -/
structure Ledger (α : Type u) where
  entered : List (Entry α)
  delivered : List (Entry α)
  removed : List (Entry α)
deriving DecidableEq, Repr

namespace Ledger

variable {α : Type u}

def blank : Ledger α := ⟨[], [], []⟩

def append (earlier later : Ledger α) : Ledger α where
  entered := earlier.entered ++ later.entered
  delivered := earlier.delivered ++ later.delivered
  removed := earlier.removed ++ later.removed

end Ledger

def Agenda.perform {α : Type u} (operation : Operation α) (a : Agenda α) : Answer α × Agenda α :=
  match operation with
  | .add event cycles => (.done, a.add event cycles)
  | .remove matching => (.removed (a.countMatching matching), a.removeMatching matching)
  | .advance cycles => (.done, a.advance cycles)
  | .popDue => (.batch a.popDue.1, a.popDue.2)

namespace DeltaQueue

variable {α : Type u}

def perform (operation : Operation α) (q : DeltaQueue α) : Answer α × DeltaQueue α :=
  match operation with
  | .add event cycles => (.done, q.add event cycles)
  | .remove matching => (.removed (q.countMatching matching), q.removeMatching matching)
  | .advance cycles => (.done, q.advance cycles)
  | .popDue => (.batch q.popDue.1, q.popDue.2)

def record (operation : Operation α) (q : DeltaQueue α) : Ledger α :=
  match operation with
  | .add event cycles => { Ledger.blank with entered := [⟨q.count + cycles, event⟩] }
  | .remove matching =>
    { Ledger.blank with removed := q.agenda.entries.filter fun entry => matching entry.event }
  | .advance _ => Ledger.blank
  | .popDue =>
    { Ledger.blank with delivered := (q.popDue.1.getD []).map (Entry.mk q.popDue.2.count) }

/-- The ledger of operations that begin with the given queue. -/
def ledger : List (Operation α) → DeltaQueue α → Ledger α
  | [], _ => Ledger.blank
  | operation :: rest, q => (record operation q).append (ledger rest (perform operation q).2)

/-! ### One operation -/

theorem tidy_perform (operation : Operation α) {q : DeltaQueue α} (tidy : Tidy q.links) :
    Tidy (perform operation q).2.links := by
  cases operation with
  | add event cycles => exact tidy_insert event cycles tidy
  | remove matching => exact tidy_sweep matching 0 tidy
  | advance cycles => exact tidy
  | popDue =>
      obtain ⟨links, count, budget⟩ := q
      cases links with
      | nil => trivial
      | cons head rest =>
          simp only [perform, popDue]
          split
          · exact Spaced.tidy tidy.2
          · exact tidy

theorem perform_agenda (operation : Operation α) {q : DeltaQueue α} (tidy : Tidy q.links) :
    ((perform operation q).1, (perform operation q).2.agenda) =
      Agenda.perform operation q.agenda := by
  cases operation with
  | add event cycles => simp only [perform, Agenda.perform, agenda_add tidy]
  | remove matching =>
      simp only [perform, Agenda.perform, agenda_removeMatching, countMatching_agenda]
  | advance cycles => simp only [perform, Agenda.perform, agenda_advance]
  | popDue => simp only [perform, Agenda.perform, ← agenda_popDue tidy]

theorem count_le_perform (operation : Operation α) (q : DeltaQueue α) :
    q.count ≤ (perform operation q).2.count := by
  cases operation with
  | add | remove | advance => exact Nat.le_refl _
  | popDue =>
      simp only [perform, popDue]
      split
      · exact Nat.le_add_right _ _
      · split <;> exact Nat.le_add_right _ _

theorem horizon_perform (operation : Operation α) (q : DeltaQueue α) :
    (perform operation q).2.agenda.horizon = q.agenda.horizon + operation.granted := by
  cases operation with
  | add | remove => rfl
  | advance cycles => exact (Nat.add_assoc q.count q.budget cycles).symm
  | popDue =>
      simp only [perform, popDue, agenda, Operation.granted]
      split
      · rfl
      · split
        · simp only
          omega
        · rfl

theorem time_delivered (operation : Operation α) (q : DeltaQueue α) {entry : Entry α}
    (member : entry ∈ (record operation q).delivered) :
    entry.time = (perform operation q).2.count := by
  cases operation with
  | add | remove | advance => simp [record, Ledger.blank] at member
  | popDue =>
      obtain ⟨event, _, rfl⟩ := List.mem_map.mp member
      rfl

theorem record_balanced (operation : Operation α) {q : DeltaQueue α} (tidy : Tidy q.links) :
    ((q.agenda.entries : Multiset (Entry α)) + (record operation q).entered) =
      (record operation q).delivered + (record operation q).removed +
        (perform operation q).2.agenda.entries := by
  cases operation with
  | add event cycles =>
      have entered := Multiset.coe_eq_coe.mpr (Agenda.entries_add_perm q.agenda event cycles)
      simp only [perform, record, Ledger.blank, agenda_add tidy, entered, ← Multiset.cons_coe]
      rw [Multiset.coe_nil, ← Multiset.singleton_add, ← Multiset.singleton_add]
      simp only [agenda]
      abel
  | remove matching =>
      have split := Multiset.filter_add_not (fun entry => matching entry.event = true)
        (q.agenda.entries : Multiset (Entry α))
      simp only [perform, record, Ledger.blank, agenda_removeMatching, Agenda.removeMatching]
      nth_rewrite 1 [← split]
      simp
  | advance cycles => simp [perform, record, Ledger.blank, agenda, advance]
  | popDue =>
      obtain ⟨links, count, budget⟩ := q
      cases links with
      | nil => simp [perform, record, Ledger.blank, agenda, popDue, timeline]
      | cons head rest =>
          simp only [perform, record, Ledger.blank, popDue, agenda]
          split
          · simp [timeline]
          · next notDue =>
            have resumed : count + budget + (head.delta - budget) = count + head.delta := by omega
            simp [timeline, resumed]

/-! ### Histories -/

theorem conduct_agenda (operations : List (Operation α)) {q : DeltaQueue α}
    (tidy : Tidy q.links) :
    Tidy (conduct perform operations q).2.links ∧
      (conduct perform operations q).1 = (conduct Agenda.perform operations q.agenda).1 ∧
      (conduct perform operations q).2.agenda =
        (conduct Agenda.perform operations q.agenda).2 := by
  induction operations generalizing q with
  | nil => exact ⟨tidy, rfl, rfl⟩
  | cons operation rest inductionHypothesis =>
      have later := inductionHypothesis (tidy_perform operation tidy)
      have same := perform_agenda operation tidy
      simp only [conduct, ← same]
      exact ⟨later.1, congrArg _ later.2.1, later.2.2⟩

theorem conduct_horizon (operations : List (Operation α)) (q : DeltaQueue α) :
    (conduct perform operations q).2.agenda.horizon =
      q.agenda.horizon + (operations.map Operation.granted).sum := by
  induction operations generalizing q with
  | nil => rfl
  | cons operation rest inductionHypothesis =>
      simp only [conduct, List.map_cons, List.sum_cons]
      rw [inductionHypothesis, horizon_perform, Nat.add_assoc]

theorem ledger_balanced (operations : List (Operation α)) {q : DeltaQueue α}
    (tidy : Tidy q.links) :
    ((q.agenda.entries : Multiset (Entry α)) + (ledger operations q).entered) =
      (ledger operations q).delivered + (ledger operations q).removed +
        (conduct perform operations q).2.agenda.entries := by
  induction operations generalizing q with
  | nil => simp [ledger, conduct, Ledger.blank]
  | cons operation rest inductionHypothesis =>
      have first := record_balanced operation tidy
      have others := inductionHypothesis (tidy_perform operation tidy)
      simp only [ledger, conduct, Ledger.append, ← Multiset.coe_add]
      calc
        _ = ((q.agenda.entries : Multiset (Entry α)) + (record operation q).entered) +
              (ledger rest (perform operation q).2).entered := by abel
        _ = (record operation q).delivered + (record operation q).removed +
              ((perform operation q).2.agenda.entries +
                (ledger rest (perform operation q).2).entered) := by rw [first]; abel
        _ = _ := by rw [others]; abel

theorem count_le_delivered (operations : List (Operation α)) (q : DeltaQueue α) :
    ∀ entry ∈ (ledger operations q).delivered, q.count ≤ entry.time := by
  induction operations generalizing q with
  | nil => simp [ledger, Ledger.blank]
  | cons operation rest inductionHypothesis =>
      intro entry member
      have advanced := count_le_perform operation q
      rcases List.mem_append.mp member with now | later
      · rw [time_delivered operation q now]
        exact advanced
      · exact Nat.le_trans advanced (inductionHypothesis _ entry later)

theorem delivered_pairwise (operations : List (Operation α)) (q : DeltaQueue α) :
    (ledger operations q).delivered.Pairwise fun earlier later => earlier.time ≤ later.time := by
  induction operations generalizing q with
  | nil => exact List.Pairwise.nil
  | cons operation rest inductionHypothesis =>
      simp only [ledger, Ledger.append]
      rw [List.pairwise_append]
      refine ⟨?_, inductionHypothesis _, ?_⟩
      · apply List.pairwise_of_forall_mem_list
        intro earlier isEarlier later isLater
        rw [time_delivered operation q isEarlier, time_delivered operation q isLater]
      · intro earlier isEarlier later isLater
        rw [time_delivered operation q isEarlier]
        exact count_le_delivered rest _ later isLater

/-- A queue that has nothing to hand out has nothing queued up to its horizon. -/
theorem horizon_lt_of_popDue_eq_none {q : DeltaQueue α} (nothing : q.popDue.1 = none) :
    ∀ entry ∈ q.agenda.entries, q.agenda.horizon < entry.time := by
  intro entry member
  obtain ⟨links, count, budget⟩ := q
  cases links with
  | nil => simp [agenda, timeline] at member
  | cons head rest =>
      simp only [popDue] at nothing
      split at nothing
      · simp at nothing
      · next notDue =>
        have late : count + budget < count + head.delta := by omega
        simp only [agenda, timeline, List.mem_append, List.mem_map] at member ⊢
        rcases member with ⟨event, _, rfl⟩ | inRest
        · exact late
        · exact Nat.lt_of_lt_of_le late (le_time_of_mem_timeline inRest)

/-- Handing out comes to an end. -/
theorem exists_popDue_eq_none (q : DeltaQueue α) :
    ∃ pops, (conduct perform (List.replicate pops .popDue) q).2.popDue.1 = none := by
  obtain ⟨links, count, budget⟩ := q
  induction links generalizing count budget with
  | nil => exact ⟨0, rfl⟩
  | cons head rest inductionHypothesis =>
      by_cases due : head.delta ≤ budget
      · obtain ⟨pops, done⟩ := inductionHypothesis (count + head.delta) (budget - head.delta)
        refine ⟨pops + 1, ?_⟩
        rw [List.replicate_succ]
        simpa [conduct, perform, popDue, due] using done
      · refine ⟨0, ?_⟩
        simp [conduct, popDue, due]

/-- A queue keeps an agenda of absolute times, whatever is done with it.

After any operations it has given the answers of the agenda and stands where the agenda stands: its
count is the current cycle, and the delta of its head is the time that remains until the earliest
event. Every event that was entered has been delivered at its time, removed, or is still queued, and
it is exactly one of these. Handing out comes to an end, and what is still queued then lies beyond
all the cycles granted. -/
theorem operations_keep_agenda (operations : List (Operation α)) :
    let played := conduct perform operations (empty : DeltaQueue α)
    let planned := conduct Agenda.perform operations (Agenda.empty : Agenda α)
    let books := ledger operations (empty : DeltaQueue α)
    played.1 = planned.1 ∧
      played.2.agenda = planned.2 ∧
      played.2.count = planned.2.now ∧
      planned.2.horizon = (operations.map Operation.granted).sum ∧
      played.2.headDelta? = planned.2.untilNext? ∧
      (played.2.headDelta? = none ↔ planned.2.entries = []) ∧
      planned.2.entries.Pairwise (fun earlier later => earlier.time ≤ later.time) ∧
      books.entered.Perm (books.delivered ++ books.removed ++ planned.2.entries) ∧
      books.delivered.Pairwise (fun earlier later => earlier.time ≤ later.time) ∧
      (∃ pops, (conduct perform (List.replicate pops .popDue) played.2).2.popDue.1 = none) ∧
      (played.2.popDue.1 = none →
        ∀ entry ∈ planned.2.entries, planned.2.horizon < entry.time) := by
  intro played planned books
  have tidyEmpty : Tidy (empty : DeltaQueue α).links := trivial
  obtain ⟨tidy, sameAnswers, sameAgenda⟩ := conduct_agenda operations tidyEmpty
  rw [agenda_empty] at sameAnswers sameAgenda
  have sameEntries : timeline played.2.count played.2.links = planned.2.entries :=
    congrArg Agenda.entries sameAgenda
  have balanced := ledger_balanced operations tidyEmpty
  refine ⟨sameAnswers, sameAgenda, congrArg Agenda.now sameAgenda, ?_, ?_, ?_, ?_, ?_,
    delivered_pairwise operations empty, exists_popDue_eq_none played.2, ?_⟩
  · rw [← sameAgenda, conduct_horizon]
    exact Nat.zero_add _
  · rw [← sameAgenda]
    exact headDelta?_agenda tidy
  · rw [← sameEntries, timeline_eq_nil_iff tidy]
    simp only [headDelta?, Option.map_eq_none_iff, List.head?_eq_none_iff]
    rfl
  · rw [← sameEntries]
    exact timeline_pairwise played.2.count played.2.links
  · rw [← Multiset.coe_eq_coe, ← Multiset.coe_add, ← Multiset.coe_add, ← sameAgenda, ← balanced]
    exact (Multiset.zero_add _).symm
  · intro nothing
    rw [← sameAgenda]
    exact horizon_lt_of_popDue_eq_none nothing

end DeltaQueue

end Avr.Time

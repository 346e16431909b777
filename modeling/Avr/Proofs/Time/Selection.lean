import Avr.Proofs.Time.History

/-!
Contract: the events of one kind in a queue.

Owns:
- the selection of the queued events that pass a test, with their times, in order of delivery;
- what adding, removing and handing out do to a selection.

Events of other kinds may come and go without changing a selection or its order.
-/

namespace Avr.Time

universe u

variable {α : Type u}

/-- Entries in order of time are cut at a time without changing places. -/
theorem filter_le_append_filter_lt (time : Nat) {entries : List (Entry α)}
    (sorted : entries.Pairwise fun earlier later => earlier.time ≤ later.time) :
    entries.filter (fun entry => entry.time ≤ time) ++
      entries.filter (fun entry => time < entry.time) = entries := by
  induction entries with
  | nil => rfl
  | cons first rest inductionHypothesis =>
      obtain ⟨firstLeast, restSorted⟩ := List.pairwise_cons.mp sorted
      by_cases before : first.time ≤ time
      · rw [List.filter_cons_of_pos (by simpa using before),
          List.filter_cons_of_neg (by simpa using before), List.cons_append,
          inductionHypothesis restSorted]
      · have after : ∀ entry ∈ first :: rest, time < entry.time := by
          intro entry member
          rcases List.mem_cons.mp member with rfl | inRest
          · exact Nat.not_le.mp before
          · exact Nat.lt_of_lt_of_le (Nat.not_le.mp before) (firstLeast entry inRest)
        obtain ⟨none, all⟩ := DeltaQueue.filter_allAfter after
        rw [none, all, List.nil_append]

namespace DeltaQueue

/-- The queued events that pass a test, in order of delivery. -/
def selected (test : α → Bool) (q : DeltaQueue α) : List (Entry α) :=
  q.agenda.entries.filter fun entry => test entry.event

variable {test : α → Bool}

theorem selected_sorted (q : DeltaQueue α) :
    (q.selected test).Pairwise fun earlier later => earlier.time ≤ later.time :=
  (timeline_pairwise q.count q.links).sublist List.filter_sublist

theorem countMatching_eq_selected {matching : α → Bool}
    (within : ∀ event, matching event = true → test event = true) (q : DeltaQueue α) :
    q.countMatching matching = (q.selected test).countP fun entry => matching entry.event := by
  rw [countMatching_agenda, Agenda.countMatching, selected, List.countP_filter]
  congr 1
  funext entry
  rcases found : matching entry.event with _ | _
  · rfl
  · rw [within _ found]
    rfl

theorem countMatching_eq_length (q : DeltaQueue α) :
    q.countMatching test = (q.selected test).length := by
  rw [countMatching_eq_selected (fun _ => id) q, List.countP_eq_length]
  exact fun entry member => (List.mem_filter.mp member).2

/-- However untidy the queue, an event counts once when it is added. -/
theorem countMatching_add (q : DeltaQueue α) (event : α) (cycles : Nat) :
    (q.add event cycles).countMatching test =
      q.countMatching test + if test event = true then 1 else 0 := by
  have inserted (cycles : Nat) (links : List (Link α)) :
      (insert event cycles links).foldr (fun link rest => link.events.countP test + rest) 0 =
        links.foldr (fun link rest => link.events.countP test + rest) 0 +
          if test event = true then 1 else 0 := by
    induction links generalizing cycles with
    | nil => simp [insert, List.countP_cons]
    | cons link rest inductionHypothesis =>
        rw [insert]
        split
        · simp [List.countP_cons, Nat.add_comm]
        · split
          · simp only [List.foldr_cons, List.countP_append, List.countP_singleton]
            omega
          · simp only [List.foldr_cons, inductionHypothesis]
            omega
  exact inserted cycles q.links

/-- What is handed out is queued no longer. -/
theorem countMatching_popDue (q : DeltaQueue α) :
    q.countMatching test =
      (q.popDue.1.getD []).countP test + q.popDue.2.countMatching test := by
  obtain ⟨links, count, budget⟩ := q
  cases links with
  | nil => rfl
  | cons head rest =>
      simp only [popDue]
      split
      · rfl
      · simp [countMatching]

theorem selected_add {q : DeltaQueue α} (tidy : Tidy q.links) (event : α)
    (passes : test event = true) (cycles : Nat) :
    ((q.add event cycles).selected test).Perm (⟨q.count + cycles, event⟩ :: q.selected test) := by
  have perm := (q.agenda.entries_add_perm event cycles).filter fun entry => test entry.event
  rw [List.filter_cons_of_pos (by simpa using passes)] at perm
  rw [selected, agenda_add tidy]
  exact perm

theorem selected_add_other {q : DeltaQueue α} (tidy : Tidy q.links) {event : α}
    (other : test event = false) (cycles : Nat) :
    (q.add event cycles).selected test = q.selected test := by
  have swap (early : Entry α → Bool) :
      (q.agenda.entries.filter early).filter (fun entry => test entry.event) =
        (q.selected test).filter early := by
    rw [selected, List.filter_filter, List.filter_filter]
    exact List.filter_congr fun _ _ => Bool.and_comm _ _
  rw [selected, agenda_add tidy, Agenda.add, List.filter_append,
    List.filter_cons_of_neg (by simp [other]), swap, swap]
  exact filter_le_append_filter_lt _ q.selected_sorted

theorem selected_removeMatching (q : DeltaQueue α) (matching : α → Bool) :
    (q.removeMatching matching).selected test =
      (q.selected test).filter fun entry => !matching entry.event := by
  rw [selected, selected, agenda_removeMatching, Agenda.removeMatching, List.filter_filter,
    List.filter_filter]
  exact List.filter_congr fun _ _ => Bool.and_comm _ _

theorem selected_removeMatching_other (q : DeltaQueue α) {matching : α → Bool}
    (others : ∀ event, test event = true → matching event = false) :
    (q.removeMatching matching).selected test = q.selected test := by
  rw [selected_removeMatching, List.filter_eq_self]
  intro entry member
  rw [others _ (List.mem_filter.mp member).2]
  rfl

/-- Handing out takes the batch off the front of the agenda. -/
theorem entries_popDue (q : DeltaQueue α) :
    q.agenda.entries =
      (q.popDue.1.getD []).map (Entry.mk q.popDue.2.count) ++ q.popDue.2.agenda.entries := by
  obtain ⟨links, count, budget⟩ := q
  cases links with
  | nil => rfl
  | cons head rest =>
      simp only [popDue, agenda]
      split
      · rfl
      · next notDue =>
        have resumed : count + budget + (head.delta - budget) = count + head.delta := by omega
        simp only [Option.getD_none, List.map_nil, List.nil_append, timeline, resumed]

theorem selected_popDue (q : DeltaQueue α) :
    q.selected test = ((q.popDue.1.getD []).map (Entry.mk q.popDue.2.count)).filter
      (fun entry => test entry.event) ++ q.popDue.2.selected test := by
  rw [selected, q.entries_popDue, List.filter_append]
  rfl

end DeltaQueue

end Avr.Time

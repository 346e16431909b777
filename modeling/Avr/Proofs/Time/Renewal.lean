import Avr.Proofs.Time.Selection
import Avr.Time.Event

/-!
Contract: agendas of events that enter themselves again.

Owns:
- what the entries of an agenda come to until a horizon, when each that is due fires in turn and a
  periodic one enters itself again;
- entries of one kind: they fire as if the others were not there;
- the times of a single periodic event.

Entries fire one by one here. That a queue hands them out in batches makes no difference as long as
no period is zero, since nothing enters the batch in hand.
-/

namespace Avr.Time

/-- Enter an event behind all that is due at its time or before. -/
def enter (entry : Entry Event) (entries : List (Entry Event)) : List (Entry Event) :=
  entries.filter (fun other => other.time ≤ entry.time) ++
    entry :: entries.filter (fun other => entry.time < other.time)

/-- Entries in order of time. -/
abbrev Sorted (entries : List (Entry Event)) : Prop :=
  entries.Pairwise fun earlier later => earlier.time ≤ later.time

variable {entry : Entry Event} {entries : List (Entry Event)}

theorem mem_enter {other : Entry Event} :
    other ∈ enter entry entries ↔ other = entry ∨ other ∈ entries := by
  simp only [enter, List.mem_append, List.mem_cons, List.mem_filter, decide_eq_true_eq]
  constructor
  · rintro (⟨member, _⟩ | rfl | ⟨member, _⟩)
    · exact .inr member
    · exact .inl rfl
    · exact .inr member
  · rintro (rfl | member)
    · exact .inr (.inl rfl)
    · rcases Nat.lt_or_ge entry.time other.time with after | before
      · exact .inr (.inr ⟨member, after⟩)
      · exact .inl ⟨member, before⟩

theorem Sorted.enter (sorted : Sorted entries) : Sorted (enter entry entries) := by
  refine List.pairwise_append.mpr ⟨sorted.sublist List.filter_sublist, ?_, ?_⟩
  · refine List.pairwise_cons.mpr ⟨fun other member => ?_, sorted.sublist List.filter_sublist⟩
    exact Nat.le_of_lt (of_decide_eq_true (List.mem_filter.mp member).2)
  · intro before isBefore other isAfter
    have early : before.time ≤ entry.time := of_decide_eq_true (List.mem_filter.mp isBefore).2
    rcases List.mem_cons.mp isAfter with rfl | after
    · exact early
    · exact Nat.le_trans early (Nat.le_of_lt (of_decide_eq_true (List.mem_filter.mp after).2))

/-- What is due no later stays in front. -/
theorem enter_append {front : List (Entry Event)}
    (early : ∀ other ∈ front, other.time ≤ entry.time) :
    enter entry (front ++ entries) = front ++ enter entry entries := by
  have kept : front.filter (fun other => other.time ≤ entry.time) = front :=
    List.filter_eq_self.mpr fun other member => decide_eq_true (early other member)
  have dropped : front.filter (fun other => entry.time < other.time) = [] :=
    List.filter_eq_nil_iff.mpr fun other member => by simpa using early other member
  rw [enter, List.filter_append, List.filter_append, kept, dropped, List.nil_append,
    List.append_assoc, enter]

/-- The entries of the events that pass a test. -/
def ofKind (test : Event → Bool) (entries : List (Entry Event)) : List (Entry Event) :=
  entries.filter fun entry => test entry.event

section Kind

variable {test : Event → Bool}

theorem ofKind_cons_of_pos (passes : test entry.event = true) :
    ofKind test (entry :: entries) = entry :: ofKind test entries :=
  List.filter_cons_of_pos passes

theorem ofKind_cons_of_neg (fails : test entry.event = false) :
    ofKind test (entry :: entries) = ofKind test entries :=
  List.filter_cons_of_neg (by simp [fails])

theorem ofKind_append (earlier later : List (Entry Event)) :
    ofKind test (earlier ++ later) = ofKind test earlier ++ ofKind test later :=
  List.filter_append earlier later

theorem ofKind_enter_of_pos (passes : test entry.event = true) :
    ofKind test (enter entry entries) = enter entry (ofKind test entries) := by
  have swap (early : Entry Event → Bool) :
      ofKind test (entries.filter early) = (ofKind test entries).filter early := by
    rw [ofKind, ofKind, List.filter_filter, List.filter_filter]
    exact List.filter_congr fun _ _ => Bool.and_comm _ _
  rw [enter, ofKind_append, ofKind_cons_of_pos passes, swap, swap, enter]

theorem ofKind_enter_of_neg (sorted : Sorted entries) (fails : test entry.event = false) :
    ofKind test (enter entry entries) = ofKind test entries := by
  rw [enter, ofKind_append, ofKind_cons_of_neg fails, ← ofKind_append,
    filter_le_append_filter_lt _ sorted]

end Kind

/-! ### Renewal -/

/-- The entry that an event makes when it fires. -/
def renewal? (entry : Entry Event) : Option (Entry Event) :=
  match entry.event with
  | .periodic _ _ period => some ⟨entry.time + period, entry.event⟩
  | _ => none

/-- The entries that are left when one has fired. -/
def renewed (entry : Entry Event) (entries : List (Entry Event)) : List (Entry Event) :=
  (renewal? entry).elim entries fun again => enter again entries

theorem renewal?_eq_some {again : Entry Event} (renews : renewal? entry = some again) :
    again.event = entry.event ∧ entry.time ≤ again.time := by
  rw [renewal?] at renews
  split at renews
  · cases renews
    exact ⟨rfl, Nat.le_add_right _ _⟩
  · cases renews

/-- The entries fire in turn until those that are left lie beyond the horizon. -/
inductive Elapsed (horizon : Nat) :
    List (Entry Event) → List (Entry Event) → List (Entry Event) → Prop where
  | idle {entries : List (Entry Event)} (later : ∀ entry ∈ entries, horizon < entry.time) :
      Elapsed horizon entries [] entries
  | fire {entry : Entry Event} {entries fired left : List (Entry Event)}
      (due : entry.time ≤ horizon) (rest : Elapsed horizon (renewed entry entries) fired left) :
      Elapsed horizon (entry :: entries) (entry :: fired) left

theorem mem_renewed {other : Entry Event} (member : other ∈ renewed entry entries) :
    entry.time ≤ other.time ∨ other ∈ entries := by
  rw [renewed] at member
  rcases renews : renewal? entry with _ | again <;> rw [renews] at member
  · exact .inr member
  · rcases mem_enter.mp member with rfl | inEntries
    · exact .inl (renewal?_eq_some renews).2
    · exact .inr inEntries

theorem Sorted.renewed (sorted : Sorted entries) : Sorted (renewed entry entries) := by
  rw [Time.renewed]
  cases renewal? entry with
  | none => exact sorted
  | some again => exact sorted.enter

theorem renewed_append {front : List (Entry Event)}
    (early : ∀ other ∈ front, other.time ≤ entry.time) :
    renewed entry (front ++ entries) = front ++ renewed entry entries := by
  rw [renewed, renewed]
  rcases renews : renewal? entry with _ | again
  · rfl
  · exact enter_append fun other member =>
      Nat.le_trans (early other member) (renewal?_eq_some renews).2

theorem ofKind_renewed_of_pos {test : Event → Bool} (passes : test entry.event = true) :
    ofKind test (renewed entry entries) = renewed entry (ofKind test entries) := by
  rw [renewed, renewed]
  rcases renews : renewal? entry with _ | again
  · rfl
  · exact ofKind_enter_of_pos ((renewal?_eq_some renews).1 ▸ passes)

theorem ofKind_renewed_of_neg {test : Event → Bool} (sorted : Sorted entries)
    (fails : test entry.event = false) :
    ofKind test (renewed entry entries) = ofKind test entries := by
  rw [renewed]
  rcases renews : renewal? entry with _ | again
  · rfl
  · exact ofKind_enter_of_neg sorted ((renewal?_eq_some renews).1 ▸ fails)

namespace Elapsed

variable {horizon : Nat} {fired left : List (Entry Event)}

theorem later (elapsed : Elapsed horizon entries fired left) :
    ∀ entry ∈ left, horizon < entry.time := by
  induction elapsed with
  | idle later => exact later
  | fire due rest inductionHypothesis => exact inductionHypothesis

/-- What fires lies between the first of the entries and the horizon. -/
theorem within {start : Nat} (elapsed : Elapsed horizon entries fired left)
    (after : ∀ entry ∈ entries, start ≤ entry.time) :
    ∀ entry ∈ fired, start ≤ entry.time ∧ entry.time ≤ horizon := by
  induction elapsed with
  | idle later => nofun
  | @fire entry entries fired left due rest inductionHypothesis =>
      have first : start ≤ entry.time := after entry List.mem_cons_self
      intro other member
      rcases List.mem_cons.mp member with rfl | inFired
      · exact ⟨first, due⟩
      · refine inductionHypothesis (fun next isNext => ?_) other inFired
        rcases mem_renewed isNext with again | inEntries
        · exact Nat.le_trans first again
        · exact after next (List.mem_cons_of_mem _ inEntries)

/-- Entries fire in order of time. -/
theorem sorted (elapsed : Elapsed horizon entries fired left) (sorted : Sorted entries) :
    Sorted fired ∧ Sorted left := by
  induction elapsed with
  | idle later => exact ⟨.nil, sorted⟩
  | @fire entry entries fired left due rest inductionHypothesis =>
      obtain ⟨least, entriesSorted⟩ := List.pairwise_cons.mp sorted
      obtain ⟨firedSorted, leftSorted⟩ := inductionHypothesis (Sorted.renewed entriesSorted)
      refine ⟨List.pairwise_cons.mpr ⟨fun other member => ?_, firedSorted⟩, leftSorted⟩
      have ahead : ∀ next ∈ renewed entry entries, entry.time ≤ next.time := by
        intro next isNext
        rcases mem_renewed isNext with again | inEntries
        · exact again
        · exact least next inEntries
      exact (rest.within ahead other member).1

theorem deterministic {fired' left' : List (Entry Event)}
    (elapsed : Elapsed horizon entries fired left)
    (elapsed' : Elapsed horizon entries fired' left') : fired = fired' ∧ left = left' := by
  induction elapsed generalizing fired' left' with
  | idle later =>
      cases elapsed' with
      | idle _ => exact ⟨rfl, rfl⟩
      | fire due rest => exact absurd due (Nat.not_le.mpr (later _ List.mem_cons_self))
  | fire due rest inductionHypothesis =>
      cases elapsed' with
      | idle later => exact absurd due (Nat.not_le.mpr (later _ List.mem_cons_self))
      | fire _ rest' =>
          obtain ⟨sameFired, sameLeft⟩ := inductionHypothesis rest'
          exact ⟨congrArg _ sameFired, sameLeft⟩

/-- The events of one kind fire as if they were alone. -/
theorem select (test : Event → Bool) (elapsed : Elapsed horizon entries fired left)
    (sorted : Sorted entries) :
    Elapsed horizon (ofKind test entries) (ofKind test fired) (ofKind test left) := by
  induction elapsed with
  | idle later => exact .idle fun entry member => later entry (List.mem_of_mem_filter member)
  | @fire entry entries fired left due rest inductionHypothesis =>
      have entriesSorted : Sorted entries := (List.pairwise_cons.mp sorted).2
      have others := inductionHypothesis entriesSorted.renewed
      rcases passes : test entry.event with _ | _
      · rw [ofKind_renewed_of_neg entriesSorted passes] at others
        rw [ofKind_cons_of_neg passes, ofKind_cons_of_neg passes]
        exact others
      · rw [ofKind_renewed_of_pos passes] at others
        rw [ofKind_cons_of_pos passes, ofKind_cons_of_pos passes]
        exact .fire due others

/-- What elapses until a horizon may be told up to an earlier one first. -/
theorem trans {earlier : Nat} {middle later : List (Entry Event)}
    (first : Elapsed earlier entries fired middle) (ordered : earlier ≤ horizon)
    (rest : Elapsed horizon middle later left) : Elapsed horizon entries (fired ++ later) left := by
  induction first with
  | idle _ => exact rest
  | fire due _ inductionHypothesis =>
      exact .fire (Nat.le_trans due ordered) (inductionHypothesis rest)

/-- Nothing fires where nothing is entered. -/
theorem of_nil (elapsed : Elapsed horizon [] fired left) : fired = [] ∧ left = [] := by
  cases elapsed
  exact ⟨rfl, rfl⟩

end Elapsed

/-! ### A single periodic event -/

/-- The firing of a periodic event that was entered at cycle `start`, after `count` others. -/
def firingAt (start : Nat) (handle : Handle) (event : Event) (period count : Nat) : Entry Event :=
  ⟨start + (count + 1) * period, .periodic handle event period⟩

theorem renewed_firingAt (start : Nat) (handle : Handle) (event : Event) (period count : Nat) :
    renewed (firingAt start handle event period count) [] =
      [firingAt start handle event period (count + 1)] := by
  have next : start + (count + 1) * period + period = start + (count + 1 + 1) * period := by
    rw [Nat.add_mul (count + 1) 1 period, Nat.one_mul, Nat.add_assoc]
  simp [renewed, renewal?, firingAt, enter, next]

/-- All firings up to the horizon, one for each period that has passed. -/
theorem Elapsed.periodic {start horizon period count : Nat} {handle : Handle} {event : Event}
    {fired left : List (Entry Event)}
    (elapsed : Elapsed horizon [firingAt start handle event period count] fired left)
    (passed : start + count * period ≤ horizon) :
    (List.range count).map (firingAt start handle event period) ++ fired =
        (List.range ((horizon - start) / period)).map (firingAt start handle event period) ∧
      left = [firingAt start handle event period ((horizon - start) / period)] := by
  generalize isEntries : [firingAt start handle event period count] = entries at elapsed
  induction elapsed generalizing count with
  | idle later =>
      subst isEntries
      have next : horizon < start + (count + 1) * period := later _ List.mem_cons_self
      have counted : (horizon - start) / period = count :=
        Nat.div_eq_of_lt_le (by omega) (by omega)
      rw [counted, List.append_nil]
      exact ⟨rfl, rfl⟩
  | fire due rest inductionHypothesis =>
      cases isEntries
      obtain ⟨all, last⟩ := inductionHypothesis due (renewed_firingAt _ _ _ _ _).symm
      refine ⟨?_, last⟩
      rw [← all, List.range_succ, List.map_append, List.append_assoc]
      rfl

end Avr.Time

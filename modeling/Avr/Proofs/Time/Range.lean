import Avr.Part
import Avr.Proofs.Time.History

/-!
Contract: the arithmetic of a queue stays within 64 bits.

Owns:
- sums and differences that are refused outside of the range of a word;
- the operations of a queue with every sum and every difference checked in this way;
- the span of a queue, which no operation stretches beyond the longest delay that was asked for;
- agreement of the checked operations with the operations, over any history.

A sum of two deltas is part of the span, and a sum with the budget or the count is at most the time
that has been granted, so neither can be too large. Differences are only taken where they cannot be
negative.
-/

namespace Avr.Time

universe u

/-! ### Words -/

/-- The sum of two words, if it is a word. -/
def plus? (a b : Nat) : Option Nat :=
  if a + b < wordLimit then some (a + b) else none

/-- The difference of two words, if it is a word. -/
def minus? (a b : Nat) : Option Nat :=
  if b ≤ a then some (a - b) else none

theorem plus?_of_lt {a b : Nat} (fits : a + b < wordLimit) : plus? a b = some (a + b) :=
  if_pos fits

theorem minus?_of_le {a b : Nat} (le : b ≤ a) : minus? a b = some (a - b) :=
  if_pos le

/-- Cycles from now for which the operation schedules an event. -/
def Operation.delay {α : Type u} : Operation α → Nat
  | .add _ cycles => cycles
  | .remove _ | .advance _ | .popDue => 0

def Operation.isAdd {α : Type u} : Operation α → Bool
  | .add _ _ => true
  | .remove _ | .advance _ | .popDue => false

/-- The longest delay for which an event is scheduled. -/
def longestDelay {α : Type u} (operations : List (Operation α)) : Nat :=
  (operations.map Operation.delay).foldr max 0

namespace DeltaQueue

variable {α : Type u} {q : DeltaQueue α} {links : List (Link α)}

/-! ### Checked operations -/

def insert? (event : α) : Nat → List (Link α) → Option (List (Link α))
  | cycles, [] => some [⟨cycles, [event]⟩]
  | cycles, link :: rest =>
    if cycles < link.delta then
      (minus? link.delta cycles).map fun behind =>
        ⟨cycles, [event]⟩ :: { link with delta := behind } :: rest
    else if cycles = link.delta then
      some ({ link with events := link.events ++ [event] } :: rest)
    else
      (minus? cycles link.delta).bind fun remaining =>
        (insert? event remaining rest).map (link :: ·)

/-- The number of events that are dropped, and the links that are left. -/
def sweep? (matching : α → Bool) : (carried : Nat) → List (Link α) →
    Option (Nat × List (Link α))
  | _, [] => some (0, [])
  | carried, link :: rest =>
    let kept := link.events.filter fun event => !matching event
    (plus? carried link.delta).bind fun delta =>
      (minus? link.events.length kept.length).bind fun dropped =>
        match kept with
        | [] => (sweep? matching delta rest).map fun (others, links) => (dropped + others, links)
        | kept =>
          (sweep? matching 0 rest).map fun (others, links) =>
            (dropped + others, ⟨delta, kept⟩ :: links)

def popDue? (q : DeltaQueue α) : Option (Option (List α) × DeltaQueue α) :=
  match q.links with
  | [] => (plus? q.count q.budget).map fun count => (none, { q with count, budget := 0 })
  | link :: rest =>
    if link.delta ≤ q.budget then
      (minus? q.budget link.delta).bind fun budget =>
        (plus? q.count link.delta).map fun count =>
          (some link.events, { links := rest, count, budget })
    else
      (minus? link.delta q.budget).bind fun delta =>
        (plus? q.count q.budget).map fun count =>
          (none, { links := { link with delta } :: rest, count, budget := 0 })

def perform? (operation : Operation α) (q : DeltaQueue α) : Option (Answer α × DeltaQueue α) :=
  match operation with
  | .add event cycles =>
    (insert? event cycles q.links).map fun links => (.done, { q with links })
  | .remove matching =>
    (sweep? matching 0 q.links).map fun (dropped, links) => (.removed dropped, { q with links })
  | .advance cycles => (plus? q.budget cycles).map fun budget => (.done, { q with budget })
  | .popDue => q.popDue?.map fun (batch, next) => (.batch batch, next)

/-- Operations one after the other, up to the first sum or difference that is no word. -/
def conduct? : List (Operation α) → DeltaQueue α → Option (List (Answer α) × DeltaQueue α)
  | [], q => some ([], q)
  | operation :: rest, q =>
    (perform? operation q).bind fun (answer, next) =>
      (conduct? rest next).map fun (answers, final) => (answer :: answers, final)

/-! ### The span of the links -/

/-- Cycles from the delivered time to the last link. -/
def span (links : List (Link α)) : Nat :=
  (links.map Link.delta).sum

@[simp] theorem span_nil : span ([] : List (Link α)) = 0 := rfl

@[simp] theorem span_cons (link : Link α) (rest : List (Link α)) :
    span (link :: rest) = link.delta + span rest := rfl

/-- An event behind the last link stretches the span to its own time, any other leaves it. -/
theorem span_insert (event : α) (cycles : Nat) (links : List (Link α)) :
    span (insert event cycles links) = max (span links) cycles := by
  induction links generalizing cycles with
  | nil => simp [insert]
  | cons link rest inductionHypothesis =>
      rw [insert]
      split
      · simp only [span_cons]
        omega
      · split
        · simp only [span_cons]
          omega
        · simp only [span_cons, inductionHypothesis]
          omega

/-- The delta of an emptied link moves to its successor, or is dropped with the last one. -/
theorem span_sweep (matching : α → Bool) (carried : Nat) (links : List (Link α)) :
    span (sweep matching carried links) ≤ carried + span links := by
  induction links generalizing carried with
  | nil => exact Nat.zero_le _
  | cons link rest inductionHypothesis =>
      rw [sweep, span_cons, ← Nat.add_assoc]
      split
      · exact inductionHypothesis (carried + link.delta)
      · have others := inductionHypothesis 0
        rw [Nat.zero_add] at others
        exact Nat.add_le_add_left others _

theorem span_popDue (q : DeltaQueue α) : span q.popDue.2.links ≤ span q.links := by
  obtain ⟨links, count, budget⟩ := q
  cases links with
  | nil => exact Nat.le_refl _
  | cons head rest =>
      simp only [popDue]
      split
      · exact Nat.le_add_left _ _
      · exact Nat.add_le_add_right (Nat.sub_le _ _) _

theorem span_perform (operation : Operation α) (q : DeltaQueue α) :
    span (perform operation q).2.links ≤ max (span q.links) operation.delay := by
  cases operation with
  | add event cycles => exact Nat.le_of_eq (span_insert event cycles q.links)
  | remove matching =>
      have swept := span_sweep matching 0 q.links
      rw [Nat.zero_add] at swept
      exact Nat.le_trans swept (Nat.le_max_left _ _)
  | advance cycles => exact Nat.le_max_left _ _
  | popDue => exact Nat.le_trans (span_popDue q) (Nat.le_max_left _ _)

/-! ### One operation -/

theorem insert?_eq (event : α) (cycles : Nat) (links : List (Link α)) :
    insert? event cycles links = some (insert event cycles links) := by
  induction links generalizing cycles with
  | nil => rfl
  | cons link rest inductionHypothesis =>
      rw [insert?, insert]
      split
      · next before =>
        rw [minus?_of_le (Nat.le_of_lt before)]
        rfl
      · next notBefore =>
        split
        · rfl
        · rw [minus?_of_le (Nat.not_lt.mp notBefore), Option.bind_some, inductionHypothesis]
          rfl

/-- What a link loses by a removal are its events that match. -/
theorem minus?_kept (matching : α → Bool) (events : List α) :
    minus? events.length (events.filter fun event => !matching event).length =
      some (events.countP matching) := by
  have others : events.countP (fun event => !matching event) =
      events.countP fun event => decide ¬matching event = true := by
    congr 1
    funext event
    cases matching event <;> rfl
  have parts := events.length_eq_countP_add_countP matching
  rw [← List.countP_eq_length_filter, minus?_of_le List.countP_le_length]
  congr 1
  omega

theorem sweep?_eq (matching : α → Bool) {carried : Nat}
    (short : carried + span links < wordLimit) :
    sweep? matching carried links =
      some (links.foldr (fun link rest => link.events.countP matching + rest) 0,
        sweep matching carried links) := by
  induction links generalizing carried with
  | nil => rfl
  | cons link rest inductionHypothesis =>
      rw [span_cons, ← Nat.add_assoc] at short
      have later {carried' : Nat} (le : carried' ≤ carried + link.delta) :
          sweep? matching carried' rest = some (_, sweep matching carried' rest) :=
        inductionHypothesis (Nat.lt_of_le_of_lt (Nat.add_le_add_right le _) short)
      rw [sweep?, sweep, plus?_of_lt (Nat.lt_of_le_of_lt (Nat.le_add_right _ _) short)]
      simp only [Option.bind_some, minus?_kept]
      cases link.events.filter fun event => !matching event with
      | nil => exact congrArg (Option.map _) (later (Nat.le_refl _))
      | cons first others => exact congrArg (Option.map _) (later (Nat.zero_le _))

theorem popDue?_eq (fits : q.agenda.horizon < wordLimit) : q.popDue? = some q.popDue := by
  obtain ⟨links, count, budget⟩ := q
  cases links with
  | nil =>
      rw [popDue?, plus?_of_lt fits]
      rfl
  | cons head rest =>
      simp only [popDue?, popDue]
      split
      · next due =>
        rw [minus?_of_le due, plus?_of_lt (Nat.lt_of_le_of_lt (Nat.add_le_add_left due _) fits)]
        rfl
      · next notDue =>
        rw [minus?_of_le (Nat.le_of_not_le notDue), plus?_of_lt fits]
        rfl

/-- The checks of an operation pass if the span, and the time granted with it, fit in a word. -/
theorem perform?_eq (operation : Operation α) (short : span q.links < wordLimit)
    (fits : q.agenda.horizon + operation.granted < wordLimit) :
    perform? operation q = some (perform operation q) := by
  cases operation with
  | add event cycles =>
      rw [perform?, insert?_eq]
      rfl
  | remove matching =>
      rw [perform?, sweep?_eq matching (by rwa [Nat.zero_add])]
      rfl
  | advance cycles =>
      have sum : q.budget + cycles < wordLimit := by
        refine Nat.lt_of_le_of_lt ?_ fits
        exact Nat.add_le_add_right (Nat.le_add_left q.budget q.count) cycles
      rw [perform?, plus?_of_lt sum]
      rfl
  | popDue =>
      rw [perform?, popDue?_eq fits]
      rfl

/-! ### Histories -/

theorem span_conduct (operations : List (Operation α)) (q : DeltaQueue α) :
    span (conduct perform operations q).2.links ≤
      max (span q.links) (longestDelay operations) := by
  induction operations generalizing q with
  | nil => exact Nat.le_max_left _ _
  | cons operation rest inductionHypothesis =>
      have first := span_perform operation q
      have others := inductionHypothesis (perform operation q).2
      have longest : longestDelay (operation :: rest) =
          max operation.delay (longestDelay rest) := rfl
      simp only [conduct, longest]
      omega

theorem conduct?_eq (operations : List (Operation α))
    (delays : ∀ operation ∈ operations, operation.delay < wordLimit)
    (short : span q.links < wordLimit)
    (fits : q.agenda.horizon + (operations.map Operation.granted).sum < wordLimit) :
    conduct? operations q = some (conduct perform operations q) := by
  induction operations generalizing q with
  | nil => rfl
  | cons operation rest inductionHypothesis =>
      rw [List.map_cons, List.sum_cons, ← Nat.add_assoc] at fits
      obtain ⟨delay, delaysRest⟩ := List.forall_mem_cons.mp delays
      have within : q.agenda.horizon + operation.granted < wordLimit :=
        Nat.lt_of_le_of_lt (Nat.le_add_right _ _) fits
      have shortNext : span (perform operation q).2.links < wordLimit :=
        Nat.lt_of_le_of_lt (span_perform operation q) (Nat.max_lt.mpr ⟨short, delay⟩)
      rw [← horizon_perform] at fits
      rw [conduct?, perform?_eq operation short within, Option.bind_some]
      exact congrArg (Option.map _) (inductionHypothesis delaysRest shortNext fits)

theorem length_entered (operations : List (Operation α)) (q : DeltaQueue α) :
    (ledger operations q).entered.length = operations.countP Operation.isAdd := by
  induction operations generalizing q with
  | nil => rfl
  | cons operation rest inductionHypothesis =>
      rw [ledger, Ledger.append, List.length_append, inductionHypothesis, Nat.add_comm,
        List.countP_cons]
      cases operation <;> rfl

/-- No more events are ever found in a queue than were added to it. -/
theorem countMatching_le (operations : List (Operation α)) (matching : α → Bool) :
    (conduct perform operations (empty : DeltaQueue α)).2.countMatching matching ≤
      operations.countP Operation.isAdd := by
  have balanced := congrArg Multiset.card
    (ledger_balanced operations (q := (empty : DeltaQueue α)) trivial)
  simp only [Multiset.card_add, Multiset.coe_card] at balanced
  have nothing : (empty : DeltaQueue α).agenda.entries.length = 0 := rfl
  rw [countMatching_agenda, Agenda.countMatching, ← length_entered operations empty]
  refine Nat.le_trans List.countP_le_length ?_
  omega

theorem tidy_tail (tidy : Tidy links) : ∀ link ∈ links.tail, 1 ≤ link.delta := by
  cases links with
  | nil => exact nofun
  | cons head rest => exact fun link member => (tidy.2 link member).1

theorem tidy_filled (tidy : Tidy links) : ∀ link ∈ links, link.events ≠ [] := by
  cases links with
  | nil => exact nofun
  | cons head rest =>
      exact List.forall_mem_cons.mpr ⟨tidy.1, fun link member => (tidy.2 link member).2⟩

/-- The arithmetic of a queue neither overflows nor underflows.

Events are scheduled, removed and handed out in any order, for delays that fit in a word, and the
time granted along the way fits in a word. Then every sum and every difference fits in a word, and
the checked operations give the same answers as the operations and leave the same queue. The span of
that queue is at most the longest delay that was asked for, only its first link may lie at the
delivered time, and no link is empty. What a removal counts are events that were added. -/
theorem arithmetic_stays_in_range (operations : List (Operation α))
    (delays : ∀ operation ∈ operations, operation.delay < wordLimit)
    (granted : (operations.map Operation.granted).sum < wordLimit) :
    let played := conduct perform operations (empty : DeltaQueue α)
    conduct? operations empty = some played ∧
      span played.2.links ≤ longestDelay operations ∧
      (∀ link ∈ played.2.links.tail, 1 ≤ link.delta) ∧
      (∀ link ∈ played.2.links, link.events ≠ []) ∧
      ∀ matching, played.2.countMatching matching ≤ operations.countP Operation.isAdd := by
  intro played
  have tidy : Tidy played.2.links := (conduct_agenda operations (q := empty) trivial).1
  have short : span (empty : DeltaQueue α).links < wordLimit := (by decide : 0 < wordLimit)
  refine ⟨conduct?_eq operations delays short ?_, ?_, tidy_tail tidy, tidy_filled tidy,
    countMatching_le operations⟩
  · exact (Nat.zero_add _).symm ▸ granted
  · have bound := span_conduct operations empty
    exact Nat.le_trans bound (Nat.max_le.mpr ⟨Nat.zero_le _, Nat.le_refl _⟩)

/-- The last cycle that a word can count is asked for, granted and delivered, with an event removed
on the way. -/
theorem arithmetic_stays_in_range_last_cycle :
    let operations : List (Operation Nat) :=
      [.add 1 (wordLimit - 1), .add 2 5, .add 3 0, .remove (· == 2), .advance (wordLimit - 1),
        .popDue, .popDue]
    (conduct? operations (empty : DeltaQueue Nat)).map Prod.fst =
        some [.done, .done, .done, .removed 1, .done, .batch (some [3]), .batch (some [1])] ∧
      longestDelay operations = wordLimit - 1 := by
  intro operations
  have fits := arithmetic_stays_in_range operations (by decide) (by decide)
  rw [fits.1]
  decide

end DeltaQueue

end Avr.Time

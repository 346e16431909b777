import Avr.Text.Layout

/-!
Contract: a queue of events in order of time.

Owns:
- links that hold their time relative to the link before them, so that the passing of time only
  touches the first;
- delivery in two steps: `advance` grants cycles, `popDue` hands out every batch that falls within
  them.

While batches are handed out the count stands at the batch's own time, so an event that is added by
a delivered event is placed correctly against the rest. Events of one cycle keep the order in which
they were added.
-/

namespace Avr.Time

universe u

structure Link (α : Type u) where
  /-- Cycles since the link before, or since the delivered time for the first link. -/
  delta : Nat
  /-- Events due at this link, in order of insertion. -/
  events : List α
deriving DecidableEq, Repr

structure DeltaQueue (α : Type u) where
  links : List (Link α)
  /-- Cycles delivered so far. -/
  count : Nat
  /-- Cycles granted and not yet delivered. -/
  budget : Nat
deriving DecidableEq, Repr

namespace DeltaQueue

variable {α : Type u}

def empty : DeltaQueue α := ⟨[], 0, 0⟩

/-- Place an event `cycles` after the start of `links`. -/
def insert (event : α) : Nat → List (Link α) → List (Link α)
  | cycles, [] => [⟨cycles, [event]⟩]
  | cycles, link :: rest =>
    if cycles < link.delta then
      ⟨cycles, [event]⟩ :: { link with delta := link.delta - cycles } :: rest
    else if cycles = link.delta then
      { link with events := link.events ++ [event] } :: rest
    else
      link :: insert event (cycles - link.delta) rest

/-- Drop the events that match, handing the delta of an emptied link to its successor. -/
def sweep (matching : α → Bool) : (carried : Nat) → List (Link α) → List (Link α)
  | _, [] => []
  | carried, link :: rest =>
    match link.events.filter fun event => !matching event with
    | [] => sweep matching (carried + link.delta) rest
    | kept => ⟨carried + link.delta, kept⟩ :: sweep matching 0 rest

def add (q : DeltaQueue α) (event : α) (cycles : Nat) : DeltaQueue α :=
  { q with links := insert event cycles q.links }

def countMatching (q : DeltaQueue α) (matching : α → Bool) : Nat :=
  q.links.foldr (fun link rest => link.events.countP matching + rest) 0

def removeMatching (q : DeltaQueue α) (matching : α → Bool) : DeltaQueue α :=
  { q with links := sweep matching 0 q.links }

/-- Grant cycles; `popDue` delivers what becomes due within them. -/
def advance (q : DeltaQueue α) (cycles : Nat) : DeltaQueue α :=
  { q with budget := q.budget + cycles }

/-- Take the earliest batch that is due. Without one, all granted cycles are delivered. -/
def popDue (q : DeltaQueue α) : Option (List α) × DeltaQueue α :=
  match q.links with
  | [] => (none, { q with count := q.count + q.budget, budget := 0 })
  | link :: rest =>
    if link.delta ≤ q.budget then
      (some link.events,
        { links := rest, count := q.count + link.delta, budget := q.budget - link.delta })
    else
      (none,
        { links := { link with delta := link.delta - q.budget } :: rest
          count := q.count + q.budget
          budget := 0 })

/-- Take batches until none is due, at most as many as there are links. -/
def drain (q : DeltaQueue α) : List (List α × Nat) × DeltaQueue α :=
  go q.links.length q
where
  go : Nat → DeltaQueue α → List (List α × Nat) × DeltaQueue α
    | 0, q => ([], q.popDue.2)
    | bound + 1, q =>
      match q.popDue with
      | (none, q) => ([], q)
      | (some batch, q) =>
        let (batches, final) := go bound q
        ((batch, q.count) :: batches, final)

def headDelta? (q : DeltaQueue α) : Option Nat :=
  q.links.head?.map fun link => link.delta - q.budget

def isEmpty (q : DeltaQueue α) : Bool :=
  q.links.isEmpty

def describe (q : DeltaQueue α) : String :=
  Text.record "DeltaQueue"
    [("count", Text.decimal q.count),
      ("deltas", Text.bracketed (q.links.map fun link =>
        Text.pair (Text.decimal link.delta) (Text.decimal link.events.length)))]

end DeltaQueue

end Avr.Time

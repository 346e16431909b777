import Avr.Time.DeltaQueue

/-!
Contract: what the links of a queue say in absolute times.

Owns:
- the events of a queue, each with its absolute time, in order of delivery;
- the shape that every queue has: no link is empty, and only the first may lie no cycle after the
  one before it;
- what insertion and sweeping do to the times and to the shape.

Why the shape matters: two links of one time would split a batch, so equal times must share a link.
-/

namespace Avr.Time

universe u

structure Entry (α : Type u) where
  time : Nat
  event : α
deriving DecidableEq, Repr

namespace DeltaQueue

variable {α : Type u}

/-- The events of links that begin at cycle `start`, with their times. -/
def timeline (start : Nat) : List (Link α) → List (Entry α)
  | [] => []
  | link :: rest =>
    link.events.map (Entry.mk (start + link.delta)) ++ timeline (start + link.delta) rest

/-- Links of which each has events and lies after the one before it. -/
def Spaced (links : List (Link α)) : Prop :=
  ∀ link ∈ links, 0 < link.delta ∧ link.events ≠ []

/-- Links as a queue holds them: only the first may lie at the start itself. -/
def Tidy : List (Link α) → Prop
  | [] => True
  | head :: rest => head.events ≠ [] ∧ Spaced rest

theorem Spaced.tidy {links : List (Link α)} (spaced : Spaced links) : Tidy links := by
  cases links with
  | nil => trivial
  | cons head rest =>
      constructor
      · exact (spaced head (by simp)).2
      · intro link member
        exact spaced link (List.mem_cons_of_mem head member)

theorem spaced_cons {head : Link α} {rest : List (Link α)} :
    Spaced (head :: rest) ↔ (0 < head.delta ∧ head.events ≠ []) ∧ Spaced rest := by
  simp [Spaced]

/-! ### Times -/

theorem le_time_of_mem_timeline {start : Nat} {links : List (Link α)} {entry : Entry α}
    (member : entry ∈ timeline start links) : start ≤ entry.time := by
  induction links generalizing start with
  | nil => simp [timeline] at member
  | cons link rest inductionHypothesis =>
      simp only [timeline, List.mem_append, List.mem_map] at member
      rcases member with ⟨event, _, rfl⟩ | inRest
      · exact Nat.le_add_right start link.delta
      · exact Nat.le_trans (Nat.le_add_right start link.delta) (inductionHypothesis inRest)

theorem lt_time_of_mem_timeline {start : Nat} {links : List (Link α)} {entry : Entry α}
    (spaced : Spaced links) (member : entry ∈ timeline start links) : start < entry.time := by
  cases links with
  | nil => simp [timeline] at member
  | cons link rest =>
      have positive := (spaced link (by simp)).1
      simp only [timeline, List.mem_append, List.mem_map] at member
      rcases member with ⟨event, _, rfl⟩ | inRest
      · exact Nat.lt_add_of_pos_right positive
      · exact Nat.lt_of_lt_of_le (Nat.lt_add_of_pos_right positive)
          (le_time_of_mem_timeline inRest)

theorem timeline_eq_nil_iff {start : Nat} {links : List (Link α)} (tidy : Tidy links) :
    timeline start links = [] ↔ links = [] := by
  cases links with
  | nil => simp [timeline]
  | cons head rest => simp [timeline, tidy.1]

theorem timeline_pairwise (start : Nat) (links : List (Link α)) :
    (timeline start links).Pairwise fun earlier later => earlier.time ≤ later.time := by
  induction links generalizing start with
  | nil => exact List.Pairwise.nil
  | cons link rest inductionHypothesis =>
      rw [timeline, List.pairwise_append]
      refine ⟨?_, inductionHypothesis _, ?_⟩
      · rw [List.pairwise_map]
        exact List.pairwise_of_forall fun _ _ => Nat.le_refl _
      · intro earlier isEarlier later isLater
        obtain ⟨event, _, rfl⟩ := List.mem_map.mp isEarlier
        exact le_time_of_mem_timeline isLater

/-! ### Insertion -/

/-- Events of one time all pass a test of their time, or none does. -/
theorem filter_sameTime (test : Nat → Bool) (time : Nat) (events : List α) :
    (events.map (Entry.mk time)).filter (fun entry => test entry.time) =
      if test time then events.map (Entry.mk time) else [] := by
  split
  · next passes =>
    rw [List.filter_eq_self]
    intro entry member
    obtain ⟨event, _, rfl⟩ := List.mem_map.mp member
    exact passes
  · next fails =>
    rw [List.filter_eq_nil_iff]
    intro entry member
    obtain ⟨event, _, rfl⟩ := List.mem_map.mp member
    exact fails

/-- Entries that all lie after a time are kept by the one test and dropped by the other. -/
theorem filter_allAfter {time : Nat} {entries : List (Entry α)}
    (after : ∀ entry ∈ entries, time < entry.time) :
    entries.filter (fun entry => entry.time ≤ time) = [] ∧
      entries.filter (fun entry => time < entry.time) = entries := by
  constructor
  · rw [List.filter_eq_nil_iff]
    intro entry member
    simpa using after entry member
  · rw [List.filter_eq_self]
    intro entry member
    simpa using after entry member

/-- An event is placed behind everything that is due at its time or before. -/
theorem timeline_insert (start cycles : Nat) (event : α) {links : List (Link α)}
    (tidy : Tidy links) :
    timeline start (insert event cycles links) =
      (timeline start links).filter (fun entry => entry.time ≤ start + cycles) ++
        ⟨start + cycles, event⟩ ::
          (timeline start links).filter (fun entry => start + cycles < entry.time) := by
  induction links generalizing start cycles with
  | nil => simp [insert, timeline]
  | cons link rest inductionHypothesis =>
      have restAfter : ∀ entry ∈ timeline (start + link.delta) rest,
          start + link.delta < entry.time :=
        fun entry member => lt_time_of_mem_timeline tidy.2 member
      have own (test : Nat → Bool) := filter_sameTime test (start + link.delta) link.events
      simp only [insert]
      split
      · next before =>
        have allAfter : ∀ entry ∈ timeline start (link :: rest), start + cycles < entry.time := by
          intro entry member
          simp only [timeline, List.mem_append, List.mem_map] at member
          rcases member with ⟨kept, _, rfl⟩ | inRest
          · exact Nat.add_lt_add_left before start
          · exact Nat.lt_trans (Nat.add_lt_add_left before start) (restAfter entry inRest)
        have resumed : start + cycles + (link.delta - cycles) = start + link.delta := by omega
        rw [(filter_allAfter allAfter).1, (filter_allAfter allAfter).2]
        simp [timeline, resumed]
      · split
        · next _ same =>
          subst same
          obtain ⟨restDropped, restKept⟩ := filter_allAfter restAfter
          simp only [timeline, List.filter_append, restDropped, restKept,
            own (fun time => time ≤ start + link.delta),
            own (fun time => start + link.delta < time)]
          simp
        · next notBefore notSame =>
          -- The link keeps its distance, and the event goes among the links that follow it.
          have linkBefore : start + link.delta ≤ start + cycles := by omega
          have later : start + link.delta + (cycles - link.delta) = start + cycles := by omega
          have placed := inductionHypothesis (start + link.delta) (cycles - link.delta)
            (Spaced.tidy tidy.2)
          rw [later] at placed
          simp only [timeline, List.filter_append, placed,
            own (fun time => time ≤ start + cycles), own (fun time => start + cycles < time)]
          simp [linkBefore, Nat.not_lt.mpr linkBefore]

theorem spaced_insert {event : α} {cycles : Nat} {links : List (Link α)} (spaced : Spaced links)
    (positive : 0 < cycles) : Spaced (insert event cycles links) := by
  induction links generalizing cycles with
  | nil => simp [insert, Spaced, positive]
  | cons link rest inductionHypothesis =>
      obtain ⟨⟨linkPositive, linkFilled⟩, restSpaced⟩ := spaced_cons.mp spaced
      simp only [insert]
      split
      · next before =>
        refine spaced_cons.mpr ⟨⟨positive, by simp⟩, spaced_cons.mpr ⟨⟨?_, linkFilled⟩, restSpaced⟩⟩
        exact Nat.sub_pos_of_lt before
      · split
        · exact spaced_cons.mpr ⟨⟨linkPositive, by simp⟩, restSpaced⟩
        · next notBefore notSame =>
          refine spaced_cons.mpr ⟨⟨linkPositive, linkFilled⟩, inductionHypothesis restSpaced ?_⟩
          omega

theorem tidy_insert (event : α) (cycles : Nat) {links : List (Link α)} (tidy : Tidy links) :
    Tidy (insert event cycles links) := by
  cases links with
  | nil => simp [insert, Tidy, Spaced]
  | cons link rest =>
      simp only [insert]
      split
      · next before =>
        exact ⟨by simp, spaced_cons.mpr ⟨⟨Nat.sub_pos_of_lt before, tidy.1⟩, tidy.2⟩⟩
      · split
        · exact ⟨by simp, tidy.2⟩
        · next notBefore notSame =>
          exact ⟨tidy.1, spaced_insert tidy.2 (by omega)⟩

/-! ### Sweeping -/

/-- Sweeping keeps the time and the order of everything that does not match. -/
theorem timeline_sweep (matching : α → Bool) (start carried : Nat) (links : List (Link α)) :
    timeline start (sweep matching carried links) =
      (timeline (start + carried) links).filter fun entry => !matching entry.event := by
  induction links generalizing start carried with
  | nil => rfl
  | cons link rest inductionHypothesis =>
      have kept : (link.events.map (Entry.mk (start + carried + link.delta))).filter
          (fun entry => !matching entry.event) =
            (link.events.filter fun event => !matching event).map
              (Entry.mk (start + carried + link.delta)) := by
        simp [List.filter_map, Function.comp_def]
      rw [timeline, List.filter_append, kept, sweep]
      split
      · next emptied =>
        rw [inductionHypothesis, emptied, ← Nat.add_assoc]
        rfl
      · rw [timeline, inductionHypothesis, ← Nat.add_assoc]
        rfl

theorem spaced_sweep (matching : α → Bool) (carried : Nat) {links : List (Link α)}
    (spaced : Spaced links) : Spaced (sweep matching carried links) := by
  induction links generalizing carried with
  | nil => simp [sweep, Spaced]
  | cons link rest inductionHypothesis =>
      obtain ⟨⟨linkPositive, _⟩, restSpaced⟩ := spaced_cons.mp spaced
      rw [sweep]
      split
      · exact inductionHypothesis _ restSpaced
      · next filled =>
        exact spaced_cons.mpr
          ⟨⟨Nat.add_pos_right carried linkPositive, filled⟩, inductionHypothesis 0 restSpaced⟩

theorem tidy_sweep (matching : α → Bool) (carried : Nat) {links : List (Link α)}
    (tidy : Tidy links) : Tidy (sweep matching carried links) := by
  cases links with
  | nil => trivial
  | cons link rest =>
      rw [sweep]
      split
      · exact Spaced.tidy (spaced_sweep matching _ tidy.2)
      · next filled => exact ⟨filled, spaced_sweep matching 0 tidy.2⟩

end DeltaQueue

end Avr.Time

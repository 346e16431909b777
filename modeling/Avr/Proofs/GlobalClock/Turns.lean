import Avr.Proofs.GlobalClock.Lockstep

/-!
Contract: the schedule in which all nodes take turns.

Owns:
- the coordinator in the middle of a round, when some nodes have taken their turn;
- the coordinator after any number of rounds;
- the number of ticks when nodes take turns, which is that of any other run.
-/

namespace Avr.GlobalClock

/-! ### One round -/

namespace Coordinator

/-- The coordinator after it has looked whether everyone is waiting. -/
def settle (c : Coordinator) : Coordinator :=
  if c.isFull then { c with waiting := [], ticks := c.ticks + 1 } else c

theorem settle_of_idle {c : Coordinator} (idle : c.waiting = []) : c.settle = c := by
  rw [settle, isFull, idle]
  rfl

theorem receive_fst (c : Coordinator) (report : Report) :
    (c.receive report).1 = (c.note report).settle := by
  rw [receive, settle]
  split <;> rfl

theorem collect_of_not_active {c : Coordinator} (ended : c.isActive = false)
    (reports : List Report) : c.collect reports = c := by
  cases reports with
  | nil => rfl
  | cons report rest => rw [collect, ended, if_neg Bool.false_ne_true]

theorem collect_append (c : Coordinator) (first second : List Report) :
    c.collect (first ++ second) = (c.collect first).collect second := by
  induction first generalizing c with
  | nil => rfl
  | cons report rest inductionHypothesis =>
      cases active : c.isActive with
      | true =>
          rw [List.cons_append, collect, collect, active, if_pos rfl, if_pos rfl]
          exact inductionHypothesis _
      | false =>
          rw [collect_of_not_active active, collect_of_not_active active,
            collect_of_not_active active]

/-- In the middle of a round some nodes have taken their turn, and the others have not. -/
def midway (round : Nat) (earlier later waiting : List Nat) (ticks : Nat) : Coordinator where
  live := earlier.map (fun total => decide (round < total)) ++
    later.map (fun total => decide (round ≤ total))
  waiting := waiting
  ticks := ticks

variable {round : Nat} {earlier later waiting : List Nat} {total ticks : Nat}

theorem note_arrived_midway (arrives : round < total) :
    (midway round earlier (total :: later) waiting ticks).note (.arrived earlier.length) =
      midway round (earlier ++ [total]) later (waiting ++ [earlier.length]) ticks := by
  have live : round ≤ total := Nat.le_of_lt arrives
  simp [note, midway, arrives, live]

theorem note_finished_midway :
    (midway round earlier (round :: later) waiting ticks).note (.finished earlier.length) =
      midway round (earlier ++ [round]) later waiting ticks := by
  simp only [note, midway, List.map_cons, List.map_append]
  rw [List.set_append_right _ _ (List.length_map _).le]
  simp

theorem midway_of_gone (gone : total < round) :
    midway round earlier (total :: later) waiting ticks =
      midway round (earlier ++ [total]) later waiting ticks := by
  have notLive : ¬ round ≤ total := Nat.not_le.mpr gone
  have notBeyond : ¬ round < total := Nat.not_lt.mpr (Nat.le_of_lt gone)
  simp [midway, notLive, notBeyond]

/-- Those who wait are the nodes that have taken their turn and have not left. -/
def Balanced (round : Nat) (earlier waiting : List Nat) : Prop :=
  waiting.length = earlier.countP fun total => decide (round < total)

theorem liveCount_midway : (midway round earlier later waiting ticks).liveCount =
    (earlier.countP fun total => decide (round < total)) +
      later.countP fun total => decide (round ≤ total) := by
  simp [liveCount, midway, List.count, Function.comp_def]

theorem isActive_midway (live : round ≤ total) :
    (midway round earlier (total :: later) waiting ticks).isActive = true := by
  simp [isActive, midway, live]

/-- Nobody is released before all nodes that are live have taken their turn. -/
theorem settle_midway_cons (balanced : Balanced round earlier waiting) (live : round ≤ total) :
    (midway round earlier (total :: later) waiting ticks).settle =
      midway round earlier (total :: later) waiting ticks := by
  rw [settle, if_neg]
  have waiters : (midway round earlier (total :: later) waiting ticks).waiting = waiting := rfl
  rw [isFull, liveCount_midway, waiters, balanced, List.countP_cons_of_pos (by simpa using live)]
  simp only [Bool.and_eq_true, decide_eq_true_eq, not_and]
  omega

def turn (round : Nat) : Nat × Nat → Option Report := fun (total, node) =>
  if round < total then some (.arrived node)
  else if round = total then some (.finished node)
  else none

/-- The ticks after a round: there is one more unless all nodes have left. -/
def ticksAfter (round : Nat) (arrivals : List Nat) (ticks : Nat) : Nat :=
  if arrivals.any fun total => decide (round < total) then ticks + 1 else ticks

/-- The last turn of a round releases everyone who waits. -/
theorem settle_midway_nil (balanced : Balanced round earlier waiting) :
    (midway round earlier [] waiting ticks).settle =
      midway round earlier [] [] (ticksAfter round earlier ticks) := by
  have waiters : (midway round earlier [] waiting ticks).waiting = waiting := rfl
  have everyone : (midway round earlier [] waiting ticks).isFull =
      earlier.any fun total => decide (round < total) := by
    rw [isFull, liveCount_midway, waiters, balanced, Bool.eq_iff_iff, List.any_eq_true,
      ← List.countP_pos_iff, ← balanced]
    cases waiting <;> simp
  rw [settle, everyone, ticksAfter]
  split
  · rfl
  · next nobody =>
    have none : waiting = [] := by
      rw [← List.length_eq_zero_iff, balanced, List.countP_eq_zero]
      simpa using nobody
    rw [none]

/-- All turns from some node on complete the round. The induction is on the nodes that follow. -/
theorem collect_turns (balanced : Balanced round earlier waiting) :
    (midway round earlier later waiting ticks).settle.collect
        ((later.zipIdx earlier.length).filterMap (turn round)) =
      midway round (earlier ++ later) [] [] (ticksAfter round (earlier ++ later) ticks) := by
  induction later generalizing earlier waiting with
  | nil =>
      rw [List.append_nil, settle_midway_nil balanced]
      rfl
  | cons total rest inductionHypothesis =>
      have next : (earlier ++ [total]).length = earlier.length + 1 := List.length_append
      have through : earlier ++ total :: rest = (earlier ++ [total]) ++ rest :=
        List.append_cons earlier total rest
      rw [List.zipIdx_cons, List.filterMap_cons, through, ← next]
      rcases Nat.lt_trichotomy round total with arrives | leaves | gone
      · have report : turn round (total, earlier.length) = some (.arrived earlier.length) :=
          if_pos arrives
        have live := Nat.le_of_lt arrives
        simp only [report]
        rw [settle_midway_cons balanced live, collect, isActive_midway live, if_pos rfl,
          receive_fst, note_arrived_midway arrives]
        apply inductionHypothesis
        simpa [Balanced, arrives] using balanced
      · subst leaves
        have report : turn round (round, earlier.length) = some (.finished earlier.length) := by
          simp [turn]
        simp only [report]
        rw [settle_midway_cons balanced (Nat.le_refl round), collect,
          isActive_midway (Nat.le_refl round), if_pos rfl, receive_fst, note_finished_midway]
        apply inductionHypothesis
        simpa [Balanced] using balanced
      · have silent : turn round (total, earlier.length) = none := by
          rw [turn, if_neg (by omega), if_neg (by omega)]
        simp only [silent]
        rw [midway_of_gone gone]
        apply inductionHypothesis
        have notBeyond : ¬ round < total := by omega
        simpa [Balanced, notBeyond] using balanced

/-- A round ends where the next one begins. -/
theorem collect_round (round : Nat) (arrivals : List Nat) (ticks : Nat) :
    (midway round [] arrivals [] ticks).collect (roundReports arrivals round) =
      midway (round + 1) [] arrivals [] (ticksAfter round arrivals ticks) := by
  have balanced : Balanced round [] [] := rfl
  have next : midway round arrivals [] [] (ticksAfter round arrivals ticks) =
      midway (round + 1) [] arrivals [] (ticksAfter round arrivals ticks) := by
    simp only [midway, List.map_nil, List.append_nil, List.nil_append]
    rfl
  rw [← next, ← List.nil_append arrivals, ← collect_turns balanced, settle_of_idle rfl]
  rfl

end Coordinator

/-! ### All rounds -/

theorem lt_foldl_max {values : List Nat} {bound start : Nat} :
    bound < values.foldl max start ↔ bound < start ∨ ∃ value ∈ values, bound < value := by
  induction values generalizing start with
  | nil => simp
  | cons value rest inductionHypothesis =>
      rw [List.foldl_cons, inductionHypothesis, lt_max_iff, or_assoc]
      simp only [List.mem_cons, exists_eq_or_imp]

/-- As long as some node is live, a round is one more tick. -/
theorem ticksAfter_min (round : Nat) (arrivals : List Nat) :
    Coordinator.ticksAfter round arrivals (min round (arrivals.foldl max 0)) =
      min (round + 1) (arrivals.foldl max 0) := by
  have more : (arrivals.any fun total => decide (round < total)) = true ↔
      round < arrivals.foldl max 0 := by
    simp [lt_foldl_max]
  rw [Coordinator.ticksAfter]
  split
  · next beyond =>
    have bound := more.mp beyond
    omega
  · next ended =>
    have bound := mt more.mpr ended
    omega

/-- The coordinator after the nodes took turns in a number of rounds. -/
theorem collect_rounds (arrivals : List Nat) (rounds : Nat) :
    (Coordinator.new arrivals.length).collect
        ((List.range rounds).flatMap (roundReports arrivals)) =
      .midway rounds [] arrivals [] (min rounds (arrivals.foldl max 0)) := by
  induction rounds with
  | zero => simp [Coordinator.collect, Coordinator.new, Coordinator.midway, List.map_const']
  | succ round inductionHypothesis =>
      rw [List.range_succ, List.flatMap_append, Coordinator.collect_append, inductionHypothesis,
        List.flatMap_singleton, Coordinator.collect_round, ticksAfter_min]

/-- Nodes that take turns have as many ticks as the one that arrives most often. -/
theorem ticks_eq_max (arrivals : List Nat) : ticks arrivals = arrivals.max?.getD 0 := by
  have most : arrivals.foldl max 0 = arrivals.max?.getD 0 := by
    cases arrivals with
    | nil => rfl
    | cons first rest => rw [List.max?_cons', List.foldl_cons, Nat.zero_max, Option.getD_some]
  rw [ticks, turns, collect_rounds, ← most]
  exact Nat.min_eq_right (Nat.le_succ _)

/-- Every run that comes to its end has the ticks of the nodes taking turns. -/
theorem ticks_of_run {arrivals : List Nat} {moves : List Move} {s : System}
    (ran : System.run? arrivals moves (.new arrivals.length) = some s) (done : s.isDone = true) :
    s.coordinator.ticks = ticks arrivals := by
  rw [ticks_eq_max]
  exact (orderly_run (orderly_new arrivals) ran).toPhased.ticks_of_isDone done

end Avr.GlobalClock

import Avr.Proofs.GlobalClock.Invariant
import Mathlib.Algebra.BigOperators.Fin
import Mathlib.Algebra.Order.BigOperators.Group.Finset
import Mathlib.Data.List.GetD

/-!
Contract: a group of machines stays in step, whatever the order in which its parties move.

Owns:
- progress: some party can move until the coordinator is done;
- the length of runs, which the numbers of arrivals bound;
- what holds of every state of a run, and of its last one.
-/

namespace Avr.GlobalClock

variable {arrivals : List Nat} {s next : System}

/-! ### Progress -/

theorem lt_length_of_live {i : Nat} (phased : Phased arrivals s) (live : s.isLive i = true) :
    i < arrivals.length := by
  rw [← phased.live_length]
  by_contra outside
  rw [System.isLive, List.getD_eq_getElem?_getD,
    List.getElem?_eq_none (Nat.le_of_not_lt outside)] at live
  cases live

/-- Some live node does not wait, as otherwise the coordinator would tick. -/
theorem Orderly.exists_not_waiting (orderly : Orderly arrivals s)
    (active : s.coordinator.isActive = true) :
    ∃ i, s.isLive i = true ∧ i ∉ s.coordinator.waiting := by
  by_contra nobody
  have allWait : ∀ i, s.isLive i = true → i ∈ s.coordinator.waiting := by
    intro i live
    by_contra absent
    exact nobody ⟨i, live, absent⟩
  have enough := count_live_le_length allWait
  have someLive : 0 < s.coordinator.live.count true :=
    List.count_pos_iff.mpr (List.contains_iff_mem.mp active)
  have notEmpty : s.coordinator.waiting ≠ [] :=
    List.ne_nil_of_length_pos (Nat.lt_of_lt_of_le someLive enough)
  have full := Coordinator.isFull_iff.mpr ⟨notEmpty, enough⟩
  rw [orderly.not_full] at full
  cases full

/-- There is no deadlock before the coordinator is done. -/
theorem Orderly.exists_move (orderly : Orderly arrivals s) (running : s.isDone = false) :
    ∃ move, (s.move? arrivals move).isSome = true := by
  rcases isDue : s.due with _ | ⟨i, rest⟩
  · have active : s.coordinator.isActive = true := by simpa [System.isDone, isDue] using running
    rcases oldest : s.reports with _ | ⟨report, reports⟩
    -- With nothing due and nothing reported, a live node that does not wait goes on by itself.
    · obtain ⟨i, live, notWaiting⟩ := orderly.exists_not_waiting active
      have inside := lt_length_of_live orderly.toPhased live
      have own := (orderly.phases i inside).can_go_on live (List.count_eq_zero.mpr notWaiting)
        (by simp [System.view, isDue]) (by simp [System.view, oldest])
        (by simp [System.view, oldest])
      rcases own with ⟨bound, node⟩ | ⟨blocked, arrives⟩
      · have computes : s.nodes i = ⟨s.coordinator.ticks, s.coordinator.ticks, false⟩ := node
        rcases Nat.lt_or_eq_of_le bound with more | all
        · refine ⟨.arrive i, ?_⟩
          rw [List.getD_eq_getElem?_getD] at more
          simp [System.move?, computes, Node.isFree, Node.isBlocked, more]
        · refine ⟨.finish i, ?_⟩
          simp [System.move?, computes, Node.isFree, Node.isBlocked, inside, all]
      · exact ⟨.resume i, by
          simp only [System.move?]
          rw [if_pos ⟨blocked, arrives⟩]
          rfl⟩
    · exact ⟨.collect, by simp [System.move?, oldest, isDue, active]⟩
  · have inside := orderly.due_known i (by simp [isDue])
    have free : s.releases i = 0 :=
      (orderly.phases i inside).releases_of_due (by simp [System.view, isDue])
    exact ⟨.release, by simp [System.move?, isDue, free]⟩

/-! ### The length of runs -/

/-- Moves that one node has caused: its own, those that took its reports, and those that sent its
releases. An arrival and the end of a node count for the report too. -/
def Node.moves (node : Node) (releases : Nat) : Nat :=
  2 * node.arrived + 2 * node.released + 2 * node.finished.toNat + releases

namespace System

def moves (s : System) (nodes : Nat) : Nat :=
  ∑ i ∈ Finset.range nodes, (s.nodes i).moves (s.releases i)

end System

theorem Phase.moves_le {ticks total : Nat} {view : View} (phase : Phase ticks total view) :
    view.node.moves view.releases ≤ 4 * total + 2 := by
  cases phase <;> simp [Node.moves] <;> omega

theorem moves_le (phased : Phased arrivals s) :
    s.moves arrivals.length ≤ (arrivals.map fun total => 4 * total + 2).sum := by
  have perNode : s.moves arrivals.length ≤
      ∑ i ∈ Finset.range arrivals.length, (4 * arrivals.getD i 0 + 2) :=
    Finset.sum_le_sum fun i member => (phased.phases i (Finset.mem_range.mp member)).moves_le
  refine Nat.le_trans perNode (Nat.le_of_eq ?_)
  rw [Finset.sum_range, ← Fin.sum_univ_fun_getElem]
  simp

/-- A move of one node changes the sum by what it changes for that node. -/
theorem moves_of_node (s next : System) {nodes i : Nat} (inside : i < nodes)
    (others : ∀ j, j ≠ i → next.nodes j = s.nodes j ∧ next.releases j = s.releases j) :
    next.moves nodes + (s.nodes i).moves (s.releases i) =
      s.moves nodes + (next.nodes i).moves (next.releases i) := by
  have member : i ∈ Finset.range nodes := Finset.mem_range.mpr inside
  have rest : ∑ j ∈ (Finset.range nodes).erase i, (next.nodes j).moves (next.releases j) =
      ∑ j ∈ (Finset.range nodes).erase i, (s.nodes j).moves (s.releases j) := by
    refine Finset.sum_congr rfl ?_
    intro j different
    rw [(others j (Finset.ne_of_mem_erase different)).1,
      (others j (Finset.ne_of_mem_erase different)).2]
  have now := Finset.add_sum_erase _ (fun j => (next.nodes j).moves (next.releases j)) member
  have before := Finset.add_sum_erase _ (fun j => (s.nodes j).moves (s.releases j)) member
  simp only [System.moves] at now before rest ⊢
  omega

/-- Each move counts once, and each report counts for the move that takes it. -/
theorem moves_of_move {move : Move} (orderly : Orderly arrivals s)
    (moved : s.move? arrivals move = some next) :
    next.moves arrivals.length + s.reports.length =
      s.moves arrivals.length + 1 + next.reports.length := by
  cases move with
  | arrive i =>
      simp only [System.move?, Option.ite_none_right_eq_some, Option.some.injEq] at moved
      obtain ⟨⟨_, more⟩, same⟩ := moved
      have sums := moves_of_node s next (lt_length_of_lt_total more) (by
        intro j different
        rw [← same]
        exact ⟨setAt_other _ _ different, rfl⟩)
      subst same
      simp [Node.moves] at sums ⊢
      omega
  | finish i =>
      simp only [System.move?, Option.ite_none_right_eq_some, Option.some.injEq] at moved
      obtain ⟨⟨inside, free, _⟩, same⟩ := moved
      have running : (s.nodes i).finished = false := by simp_all [Node.isFree]
      have sums := moves_of_node s next inside (by
        intro j different
        rw [← same]
        exact ⟨setAt_other _ _ different, rfl⟩)
      subst same
      simp [Node.moves, running] at sums ⊢
      omega
  | resume i =>
      simp only [System.move?, Option.ite_none_right_eq_some, Option.some.injEq] at moved
      obtain ⟨⟨_, arrives⟩, same⟩ := moved
      have sums := moves_of_node s next (orderly.releases_known i arrives) (by
        intro j different
        rw [← same]
        exact ⟨setAt_other _ _ different, setAt_other _ _ different⟩)
      subst same
      simp [Node.moves] at sums ⊢
      omega
  | collect =>
      simp only [System.move?] at moved
      split at moved
      case h_1 => cases moved
      case h_2 report rest oldest =>
        simp only [Option.ite_none_right_eq_some, Option.some.injEq] at moved
        obtain ⟨_, rfl⟩ := moved
        simp [System.moves, oldest]
        omega
  | release =>
      simp only [System.move?] at moved
      split at moved
      case h_1 => cases moved
      case h_2 i rest isDue =>
        simp only [Option.ite_none_right_eq_some, Option.some.injEq] at moved
        obtain ⟨free, same⟩ := moved
        have sums := moves_of_node s next
          (orderly.due_known i (by simp [isDue])) (by
            intro j different
            rw [← same]
            exact ⟨rfl, setAt_other _ _ different⟩)
        subst same
        simp [Node.moves, free] at sums ⊢
        omega

theorem moves_of_run {moves : List Move} (orderly : Orderly arrivals s)
    (ran : System.run? arrivals moves s = some next) :
    next.moves arrivals.length + s.reports.length =
      s.moves arrivals.length + moves.length + next.reports.length := by
  induction moves generalizing s with
  | nil =>
      cases ran
      rfl
  | cons move rest inductionHypothesis =>
      obtain ⟨middle, moved, restRan⟩ := Option.bind_eq_some_iff.mp ran
      have first := moves_of_move orderly moved
      have others := inductionHypothesis (orderly_move orderly moved) restRan
      rw [List.length_cons]
      omega

theorem length_le_of_run {moves : List Move}
    (ran : System.run? arrivals moves (.new arrivals.length) = some s) :
    moves.length ≤ (arrivals.map fun total => 4 * total + 2).sum := by
  have counted := moves_of_run (orderly_new arrivals) ran
  have bound := moves_le (orderly_run (orderly_new arrivals) ran).toPhased
  have none : (System.new arrivals.length).moves arrivals.length = 0 := by
    simp [System.moves, System.new, Node.moves, Node.new]
  have silent : (System.new arrivals.length).reports.length = 0 := rfl
  omega

/-! ### Lockstep -/

/-- What a group promises in each of its states. -/
structure Lockstep (arrivals : List Nat) (s : System) : Prop where
  /-- There is no deadlock. -/
  progress : s.isDone = false → ∃ move, (s.move? arrivals move).isSome = true
  /-- At most one release of a node is outstanding. -/
  outstanding : ∀ i < arrivals.length, s.releases i + s.due.count i ≤ 1
  /-- No release is lost: each tick grants one to every live node. -/
  granted : ∀ i < arrivals.length, s.isLive i = true → s.granted i = s.coordinator.ticks
  /-- A node that has not reported its end is live. -/
  live : ∀ i < arrivals.length, (s.nodes i).finished = false → s.isLive i = true
  /-- Live nodes are at most one arrival apart. -/
  together : ∀ i < arrivals.length, ∀ j < arrivals.length,
    s.isLive i = true → s.isLive j = true → (s.nodes i).arrived ≤ (s.nodes j).arrived + 1
  /-- Nobody is released from a barrier before all who ever reach it have arrived there. -/
  barrier : ∀ i < arrivals.length, ∀ j < arrivals.length, ∀ k,
    k ≤ s.granted i → k ≤ arrivals.getD j 0 → k ≤ (s.nodes j).arrived
  /-- In the end every node has arrived, was released as often, and has finished. -/
  served : s.isDone = true → ∀ i < arrivals.length,
    s.nodes i = ⟨arrivals.getD i 0, arrivals.getD i 0, true⟩
  /-- The number of ticks does not depend on the order of the moves. -/
  ticks : s.isDone = true → s.coordinator.ticks = arrivals.max?.getD 0

theorem Phased.granted_le_ticks (phased : Phased arrivals s) {i : Nat}
    (inside : i < arrivals.length) : s.granted i ≤ s.coordinator.ticks := by
  have phase := phased.phases i inside
  have granted : s.granted i = if s.isLive i then s.coordinator.ticks else arrivals.getD i 0 :=
    phase.granted_eq
  rw [granted]
  cases live : s.isLive i with
  | true => exact Nat.le_refl _
  | false => exact (phase.of_not_live live).1

theorem isLive_of_isDone (done : s.isDone = true) (i : Nat) : s.isLive i = false := by
  simp only [System.isDone, Bool.and_eq_true, Bool.not_eq_true'] at done
  by_contra live
  rw [Bool.not_eq_false, System.isLive, List.getD_eq_getElem?_getD] at live
  rcases found : s.coordinator.live[i]? with _ | value
  · simp [found] at live
  · rw [found, Option.getD_some] at live
    have member := List.contains_iff_mem.mpr (live ▸ List.mem_of_getElem? found)
    rw [Coordinator.isActive, member] at done
    cases done.2

theorem Phased.ticks_of_isDone (phased : Phased arrivals s) (done : s.isDone = true) :
    s.coordinator.ticks = arrivals.max?.getD 0 := by
  have reached (i : Nat) (inside : i < arrivals.length) :
      arrivals.getD i 0 ≤ s.coordinator.ticks :=
    ((phased.phases i inside).of_not_live (isLive_of_isDone done i)).1
  rcases found : arrivals.max? with _ | most
  · rcases phased.ticks_reached with zero | ⟨i, inside, _⟩
    · exact zero
    · rw [List.max?_eq_none_iff.mp found] at inside
      cases inside
  · obtain ⟨member, largest⟩ := List.max?_eq_some_iff.mp found
    obtain ⟨i, inside, rfl⟩ := List.mem_iff_getElem.mp member
    have lower := reached i inside
    rw [List.getD_eq_getElem _ _ inside] at lower
    rw [Option.getD_some]
    rcases phased.ticks_reached with zero | ⟨j, known, upper⟩
    · omega
    · rw [List.getD_eq_getElem _ _ known] at upper
      have bound := largest arrivals[j] (List.getElem_mem known)
      omega

theorem Orderly.lockstep (orderly : Orderly arrivals s) : Lockstep arrivals s where
  progress := orderly.exists_move
  outstanding i inside := (orderly.phases i inside).outstanding_le_one
  granted i inside live := by
    have granted : s.granted i = if s.isLive i then s.coordinator.ticks else arrivals.getD i 0 :=
      (orderly.phases i inside).granted_eq
    rw [granted, if_pos live]
  live i inside unfinished := (orderly.phases i inside).live_of_unfinished unfinished
  together i inside j known live otherLive := by
    have upper := ((orderly.phases i inside).arrived_of_live live).2
    have lower := ((orderly.phases j known).arrived_of_live otherLive).1
    exact Nat.le_trans upper (Nat.succ_le_succ lower)
  barrier i inside j known k released reaches := by
    have ticked := Nat.le_trans released (orderly.granted_le_ticks inside)
    cases live : s.isLive j with
    | true => exact Nat.le_trans ticked ((orderly.phases j known).arrived_of_live live).1
    | false =>
        have gone := congrArg View.node ((orderly.phases j known).of_not_live live).2
        have all : (s.nodes j).arrived = arrivals.getD j 0 := congrArg Node.arrived gone
        rw [all]
        exact reaches
  served done i inside :=
    congrArg View.node ((orderly.phases i inside).of_not_live (isLive_of_isDone done i)).2
  ticks := orderly.ticks_of_isDone

/-- Whatever the order of the moves, the group stays in step, and it comes to an end. -/
theorem lockstep_of_run (arrivals : List Nat) (moves : List Move) (s : System)
    (ran : System.run? arrivals moves (.new arrivals.length) = some s) :
    Lockstep arrivals s ∧ moves.length ≤ (arrivals.map fun total => 4 * total + 2).sum :=
  ⟨(orderly_run (orderly_new arrivals) ran).lockstep, length_le_of_run ran⟩

/-- A run of two nodes, of which the second one's end completes the second tick. -/
def shrinkingGroup : List Move :=
  [.arrive 1, .arrive 0, .collect, .collect, .release, .release, .resume 0, .resume 1,
    .arrive 0, .collect, .finish 1, .collect, .release, .resume 0, .finish 0, .collect]

theorem lockstep_of_run_shrinking_group :
    ∃ s, System.run? [2, 1] shrinkingGroup (.new 2) = some s ∧ s.isDone = true ∧
      s.coordinator.ticks = 2 ∧ Lockstep [2, 1] s ∧
      shrinkingGroup.length ≤ ([2, 1].map fun total => 4 * total + 2).sum := by
  refine ⟨_, rfl, rfl, rfl, ?_⟩
  exact lockstep_of_run [2, 1] shrinkingGroup _ rfl

end Avr.GlobalClock

import Avr.Proofs.GlobalClock.System
import Mathlib.Data.List.Nodup

/-!
Contract: what can be the matter with one node of a group.

Owns:
- the view of one node: its own state, its messages under way, and its place at the coordinator;
- the phases that a node goes through between two ticks;
- the invariant of a group: every node is in some phase, and not everybody waits.

The phase of a node fixes all of its counts in terms of the number of ticks. A tick moves every live
node on at once, because the coordinator is full exactly if every live node waits.
-/

namespace Avr.GlobalClock

/-- Everything in the state of a group that concerns one node. -/
structure View where
  node : Node
  /-- Its arrivals that are on their way. -/
  arriving : Nat
  /-- Whether its report that it has finished is on its way. -/
  leaving : Nat
  waiting : Nat
  due : Nat
  releases : Nat
  live : Bool
deriving DecidableEq, Repr

namespace System

/-- Whether the coordinator still counts on a node. -/
def isLive (s : System) (node : Nat) : Bool :=
  s.coordinator.live.getD node false

def view (s : System) (i : Nat) : View where
  node := s.nodes i
  arriving := s.reports.count (.arrived i)
  leaving := s.reports.count (.finished i)
  waiting := s.coordinator.waiting.count i
  due := s.due.count i
  releases := s.releases i
  live := s.isLive i

end System

/-- The views that a node can have after some ticks, if it arrives `total` times in all. -/
inductive Phase (ticks total : Nat) : View → Prop where
  | computing (bound : ticks ≤ total) :
      Phase ticks total ⟨⟨ticks, ticks, false⟩, 0, 0, 0, 0, 0, true⟩
  | reporting (more : ticks < total) :
      Phase ticks total ⟨⟨ticks + 1, ticks, false⟩, 1, 0, 0, 0, 0, true⟩
  | waiting (more : ticks < total) :
      Phase ticks total ⟨⟨ticks + 1, ticks, false⟩, 0, 0, 1, 0, 0, true⟩
  | due (before : Nat) (last : ticks = before + 1) (bound : ticks ≤ total) :
      Phase ticks total ⟨⟨ticks, before, false⟩, 0, 0, 0, 1, 0, true⟩
  | released (before : Nat) (last : ticks = before + 1) (bound : ticks ≤ total) :
      Phase ticks total ⟨⟨ticks, before, false⟩, 0, 0, 0, 0, 1, true⟩
  | leaving (all : ticks = total) :
      Phase ticks total ⟨⟨total, total, true⟩, 0, 1, 0, 0, 0, true⟩
  | gone (bound : total ≤ ticks) :
      Phase ticks total ⟨⟨total, total, true⟩, 0, 0, 0, 0, 0, false⟩

namespace Phase

variable {ticks total : Nat} {view : View}

theorem waiting_le_one (phase : Phase ticks total view) : view.waiting ≤ 1 := by
  cases phase <;> simp

theorem of_waiting (phase : Phase ticks total view) (waits : 0 < view.waiting) :
    ticks < total ∧ view = ⟨⟨ticks + 1, ticks, false⟩, 0, 0, 1, 0, 0, true⟩ := by
  cases phase with
  | waiting more => exact ⟨more, rfl⟩
  | _ => simp at waits

theorem releases_of_due (phase : Phase ticks total view) (isDue : 0 < view.due) :
    view.releases = 0 := by
  cases phase with
  | due => rfl
  | _ => simp at isDue

/-- At most one release is under way. -/
theorem outstanding_le_one (phase : Phase ticks total view) : view.releases + view.due ≤ 1 := by
  cases phase <;> simp

/-- A live node was granted one release for each tick. -/
theorem granted_eq (phase : Phase ticks total view) :
    view.node.released + view.releases + view.due = if view.live then ticks else total := by
  cases phase with
  | due before last bound => simp [last]
  | released before last bound => simp [last]
  | leaving all => simp [all]
  | _ => simp

/-- Between two ticks a live node arrives at most once. -/
theorem arrived_of_live (phase : Phase ticks total view) (live : view.live = true) :
    ticks ≤ view.node.arrived ∧ view.node.arrived ≤ ticks + 1 := by
  cases phase with
  | leaving all => simp [all]
  | gone bound => simp at live
  | _ => simp

/-- A node is given up only after all of its arrivals, and never more ticks than these ago. -/
theorem of_not_live (phase : Phase ticks total view) (gone : view.live = false) :
    total ≤ ticks ∧ view = ⟨⟨total, total, true⟩, 0, 0, 0, 0, 0, false⟩ := by
  cases phase with
  | gone bound => exact ⟨bound, rfl⟩
  | _ => simp at gone

theorem live_of_unfinished (phase : Phase ticks total view)
    (unfinished : view.node.finished = false) : view.live = true := by
  cases phase with
  | leaving | gone => simp at unfinished
  | _ => rfl

/-- A node that is neither blocked nor finished computes. -/
theorem of_free (phase : Phase ticks total view) (free : view.node.isFree = true) :
    ticks ≤ total ∧ view = ⟨⟨ticks, ticks, false⟩, 0, 0, 0, 0, 0, true⟩ := by
  cases phase with
  | computing bound => exact ⟨bound, rfl⟩
  | due before last bound => simp [Node.isFree, Node.isBlocked, last] at free
  | released before last bound => simp [Node.isFree, Node.isBlocked, last] at free
  | _ => simp [Node.isFree, Node.isBlocked] at free

theorem of_releases (phase : Phase ticks total view) (arrives : 0 < view.releases) :
    ∃ before, ticks = before + 1 ∧ ticks ≤ total ∧
      view = ⟨⟨ticks, before, false⟩, 0, 0, 0, 0, 1, true⟩ := by
  cases phase with
  | released before last bound => exact ⟨before, last, bound, rfl⟩
  | _ => simp at arrives

theorem of_arriving (phase : Phase ticks total view) (arrives : 0 < view.arriving) :
    ticks < total ∧ view = ⟨⟨ticks + 1, ticks, false⟩, 1, 0, 0, 0, 0, true⟩ := by
  cases phase with
  | reporting more => exact ⟨more, rfl⟩
  | _ => simp at arrives

theorem of_leaving (phase : Phase ticks total view) (leaves : 0 < view.leaving) :
    ticks = total ∧ view = ⟨⟨total, total, true⟩, 0, 1, 0, 0, 0, true⟩ := by
  cases phase with
  | leaving all => exact ⟨all, rfl⟩
  | _ => simp at leaves

theorem of_due (phase : Phase ticks total view) (isDue : 0 < view.due) :
    ∃ before, ticks = before + 1 ∧ ticks ≤ total ∧
      view = ⟨⟨ticks, before, false⟩, 0, 0, 0, 1, 0, true⟩ := by
  cases phase with
  | due before last bound => exact ⟨before, last, bound, rfl⟩
  | _ => simp at isDue

/-- With nothing under way for it, a live node that does not wait can go on by itself. -/
theorem can_go_on (phase : Phase ticks total view) (live : view.live = true)
    (notWaiting : view.waiting = 0) (notDue : view.due = 0) (silent : view.arriving = 0)
    (stays : view.leaving = 0) :
    (ticks ≤ total ∧ view.node = ⟨ticks, ticks, false⟩) ∨
      (view.node.isBlocked = true ∧ 0 < view.releases) := by
  cases phase with
  | computing bound => exact .inl ⟨bound, rfl⟩
  | released before last bound => exact .inr ⟨by simp [Node.isBlocked, last], by simp⟩
  | reporting => simp at silent
  | waiting => simp at notWaiting
  | due => simp at notDue
  | leaving => simp at stays
  | gone => simp at live

end Phase

/-! ### Counting live nodes -/

/-- Different live nodes are no more than the live nodes. -/
theorem length_le_count_live {live : List Bool} {ids : List Nat} (distinct : ids.Nodup)
    (allLive : ∀ i ∈ ids, live.getD i false = true) : ids.length ≤ live.count true := by
  induction ids generalizing live with
  | nil => exact Nat.zero_le _
  | cons i rest inductionHypothesis =>
      obtain ⟨notInRest, restDistinct⟩ := List.nodup_cons.mp distinct
      have isLive := allLive i (by simp)
      rw [List.getD_eq_getElem?_getD, Option.getD_eq_iff] at isLive
      obtain ⟨inside, live_i⟩ : ∃ inside : i < live.length, live[i] = true := by
        simpa [List.getElem?_eq_some_iff] using isLive
      have others : ∀ j ∈ rest, (live.set i false).getD j false = true := by
        intro j member
        have different : i ≠ j := fun same => notInRest (same ▸ member)
        rw [List.getD_eq_getElem?_getD, List.getElem?_set_ne different,
          ← List.getD_eq_getElem?_getD]
        exact allLive j (List.mem_cons_of_mem i member)
      have fewer := inductionHypothesis restDistinct others
      rw [List.count_set inside, live_i] at fewer
      have positive : 0 < live.count true :=
        List.count_pos_iff.mpr (live_i ▸ List.getElem_mem inside)
      simp only [List.length_cons, beq_self_eq_true, if_true, Bool.false_eq_true, beq_iff_eq,
        if_false] at fewer ⊢
      omega

/-- A list that has all live nodes is as long as they are many. -/
theorem count_live_le_length {live : List Bool} {ids : List Nat}
    (complete : ∀ i, live.getD i false = true → i ∈ ids) : live.count true ≤ ids.length := by
  induction ids generalizing live with
  | nil =>
      rw [List.length_nil, Nat.le_zero, List.count_eq_zero]
      intro member
      obtain ⟨i, inside, isLive⟩ := List.mem_iff_getElem.mp member
      exact absurd (complete i (by simp [List.getD_eq_getElem?_getD, inside, isLive])) (by simp)
  | cons i rest inductionHypothesis =>
      by_cases inside : i < live.length
      · have others : ∀ j, (live.set i false).getD j false = true → j ∈ rest := by
          intro j isLive
          by_cases same : i = j
          · subst same
            simp [List.getD_eq_getElem?_getD, inside] at isLive
          · rw [List.getD_eq_getElem?_getD, List.getElem?_set_ne same,
              ← List.getD_eq_getElem?_getD] at isLive
            exact (List.mem_cons.mp (complete j isLive)).resolve_left (Ne.symm same)
        have fewer := inductionHypothesis others
        rw [List.count_set inside] at fewer
        have atMostOne : (if live[i] = true then 1 else 0) ≤ 1 := by split <;> simp
        simp only [List.length_cons, Bool.false_eq_true, beq_iff_eq, if_false] at fewer ⊢
        omega
      · have others : ∀ j, live.getD j false = true → j ∈ rest := by
          intro j isLive
          refine (List.mem_cons.mp (complete j isLive)).resolve_left ?_
          rintro rfl
          simp [List.getD_eq_getElem?_getD, Nat.le_of_not_lt inside] at isLive
        exact Nat.le_succ_of_le (inductionHypothesis others)

end Avr.GlobalClock

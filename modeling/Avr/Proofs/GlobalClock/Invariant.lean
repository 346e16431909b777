import Avr.Proofs.GlobalClock.Phases

/-!
Contract: the invariant of a group of machines.

Owns:
- the invariant: every node is in some phase, all messages are about known nodes, and the
  coordinator owes no tick;
- its preservation by every move.

Taking a report goes in two halves: the report is noted, which moves one node to its next phase, and
if everybody who is live waits then, a tick moves all of them.
-/

namespace Avr.GlobalClock

/-- Every node is in a phase, and nothing is about unknown nodes. -/
structure Phased (arrivals : List Nat) (s : System) : Prop where
  phases : ∀ i < arrivals.length,
    Phase s.coordinator.ticks (arrivals.getD i 0) (s.view i)
  live_length : s.coordinator.live.length = arrivals.length
  reports_known : ∀ report ∈ s.reports, report.node < arrivals.length
  waiting_known : ∀ i ∈ s.coordinator.waiting, i < arrivals.length
  due_known : ∀ i ∈ s.due, i < arrivals.length
  releases_known : ∀ i, 0 < s.releases i → i < arrivals.length
  ticks_reached : s.coordinator.ticks = 0 ∨
    ∃ i < arrivals.length, s.coordinator.ticks ≤ arrivals.getD i 0

/-- What holds of a group in every state that it reaches. -/
structure Orderly (arrivals : List Nat) (s : System) : Prop extends Phased arrivals s where
  not_full : s.coordinator.isFull = false

theorem orderly_new (arrivals : List Nat) : Orderly arrivals (.new arrivals.length) where
  phases := by
    intro i inside
    have viewed : (System.new arrivals.length).view i =
        ⟨⟨0, 0, false⟩, 0, 0, 0, 0, 0, true⟩ := by
      simp [System.view, System.new, System.isLive, Coordinator.new, Node.new,
        List.getD_eq_getElem?_getD, inside]
    rw [viewed]
    exact .computing (Nat.zero_le _)
  live_length := by simp [System.new, Coordinator.new]
  reports_known := by simp [System.new]
  waiting_known := by simp [System.new, Coordinator.new]
  due_known := by simp [System.new]
  releases_known := by simp [System.new]
  ticks_reached := .inl rfl
  not_full := by simp [System.new, Coordinator.new, Coordinator.isFull]

variable {arrivals : List Nat} {s next : System}

theorem lt_length_of_lt_total {i count : Nat} (more : count < arrivals.getD i 0) :
    i < arrivals.length := by
  by_contra outside
  rw [List.getD_eq_getElem?_getD, List.getElem?_eq_none (Nat.le_of_not_lt outside)] at more
  exact Nat.not_lt_zero count more

/-! ### Moves of nodes -/

/-- A change that concerns one node: only its own view changes, to another phase. -/
theorem Phased.of_node (phased : Phased arrivals s) {i : Nat} (inside : i < arrivals.length)
    (sameTicks : next.coordinator.ticks = s.coordinator.ticks)
    (sameLength : next.coordinator.live.length = s.coordinator.live.length)
    (reports : ∀ report ∈ next.reports, report ∈ s.reports ∨ report.node = i)
    (waiting : ∀ j ∈ next.coordinator.waiting, j ∈ s.coordinator.waiting ∨ j = i)
    (due : ∀ j ∈ next.due, j ∈ s.due)
    (others : ∀ j, j ≠ i → next.view j = s.view j)
    (own : Phase s.coordinator.ticks (arrivals.getD i 0) (next.view i)) :
    Phased arrivals next where
  phases := by
    intro j known
    rw [sameTicks]
    by_cases same : j = i
    · rw [same]
      exact own
    · rw [others j same]
      exact phased.phases j known
  live_length := sameLength.trans phased.live_length
  reports_known := by
    intro report member
    rcases reports report member with old | new
    · exact phased.reports_known report old
    · exact new ▸ inside
  waiting_known := by
    intro j member
    rcases waiting j member with old | new
    · exact phased.waiting_known j old
    · exact new ▸ inside
  due_known := fun j member => phased.due_known j (due j member)
  releases_known := by
    intro j arrives
    by_cases same : j = i
    · exact same ▸ inside
    · have unchanged : next.releases j = s.releases j := congrArg View.releases (others j same)
      exact phased.releases_known j (unchanged ▸ arrives)
  ticks_reached := by
    rw [sameTicks]
    exact phased.ticks_reached

theorem orderly_arrive {i : Nat} (orderly : Orderly arrivals s)
    (moved : s.move? arrivals (.arrive i) = some next) : Orderly arrivals next := by
  simp only [System.move?, Option.ite_none_right_eq_some, Option.some.injEq] at moved
  obtain ⟨⟨free, more⟩, rfl⟩ := moved
  have inside := lt_length_of_lt_total more
  obtain ⟨_, viewed⟩ := (orderly.phases i inside).of_free free
  simp only [System.view, View.mk.injEq] at viewed
  obtain ⟨node, arriving, leaving, waiting, due, releases, live⟩ := viewed
  refine ⟨orderly.of_node inside rfl rfl ?_ (fun _ => .inl) (fun _ => id) ?_ ?_, orderly.not_full⟩
  · intro report member
    rcases List.mem_append.mp member with old | new
    · exact .inl old
    · rw [List.mem_singleton.mp new]
      exact .inr rfl
  · intro j different
    simp [System.view, System.isLive, setAt_other _ _ different, List.count_append,
      Ne.symm different]
  · rw [node] at more
    have nextView : System.view { s with
        nodes := setAt s.nodes i { s.nodes i with arrived := (s.nodes i).arrived + 1 }
        reports := s.reports ++ [.arrived i] } i =
          ⟨⟨s.coordinator.ticks + 1, s.coordinator.ticks, false⟩, 1, 0, 0, 0, 0, true⟩ := by
      simp [System.view, System.isLive, List.count_append, node, arriving, leaving, waiting, due,
        releases] at live ⊢
      exact live
    rw [nextView]
    exact .reporting more

theorem orderly_finish {i : Nat} (orderly : Orderly arrivals s)
    (moved : s.move? arrivals (.finish i) = some next) : Orderly arrivals next := by
  simp only [System.move?, Option.ite_none_right_eq_some, Option.some.injEq] at moved
  obtain ⟨⟨inside, free, all⟩, rfl⟩ := moved
  obtain ⟨_, viewed⟩ := (orderly.phases i inside).of_free free
  simp only [System.view, View.mk.injEq] at viewed
  obtain ⟨node, arriving, leaving, waiting, due, releases, live⟩ := viewed
  refine ⟨orderly.of_node inside rfl rfl ?_ (fun _ => .inl) (fun _ => id) ?_ ?_, orderly.not_full⟩
  · intro report member
    rcases List.mem_append.mp member with old | new
    · exact .inl old
    · rw [List.mem_singleton.mp new]
      exact .inr rfl
  · intro j different
    simp [System.view, System.isLive, setAt_other _ _ different, List.count_append,
      Ne.symm different]
  · rw [node] at all
    have nextView : System.view { s with
        nodes := setAt s.nodes i { s.nodes i with finished := true }
        reports := s.reports ++ [.finished i] } i =
          ⟨⟨arrivals.getD i 0, arrivals.getD i 0, true⟩, 0, 1, 0, 0, 0, true⟩ := by
      simp [System.view, System.isLive, List.count_append, node, arriving, leaving, waiting, due,
        releases] at live all ⊢
      exact ⟨all, live⟩
    rw [nextView]
    exact .leaving all

theorem orderly_resume {i : Nat} (orderly : Orderly arrivals s)
    (moved : s.move? arrivals (.resume i) = some next) : Orderly arrivals next := by
  simp only [System.move?, Option.ite_none_right_eq_some, Option.some.injEq] at moved
  obtain ⟨⟨_, arrives⟩, rfl⟩ := moved
  have inside := orderly.releases_known i arrives
  obtain ⟨before, last, bound, viewed⟩ := (orderly.phases i inside).of_releases arrives
  simp only [System.view, View.mk.injEq] at viewed
  obtain ⟨node, arriving, leaving, waiting, due, releases, live⟩ := viewed
  refine ⟨orderly.of_node inside rfl rfl (fun _ => .inl) (fun _ => .inl) (fun _ => id) ?_ ?_,
    orderly.not_full⟩
  · intro j different
    simp [System.view, System.isLive, setAt_other _ _ different]
  · have nextView : System.view { s with
        nodes := setAt s.nodes i { s.nodes i with released := (s.nodes i).released + 1 }
        releases := setAt s.releases i (s.releases i - 1) } i =
          ⟨⟨s.coordinator.ticks, s.coordinator.ticks, false⟩, 0, 0, 0, 0, 0, true⟩ := by
      simp [System.view, System.isLive, node, arriving, leaving, waiting, due, releases, last]
        at live ⊢
      exact live
    rw [nextView]
    exact .computing bound

/-! ### Moves of the coordinator -/

theorem orderly_release (orderly : Orderly arrivals s)
    (moved : s.move? arrivals .release = some next) : Orderly arrivals next := by
  simp only [System.move?] at moved
  split at moved
  case h_1 => cases moved
  case h_2 i rest isDue =>
    obtain ⟨_, rfl⟩ : s.releases i = 0 ∧
        { s with due := rest, releases := setAt s.releases i 1 } = next := by
      simpa using moved
    have inside := orderly.due_known i (by simp [isDue])
    obtain ⟨before, last, bound, viewed⟩ := (orderly.phases i inside).of_due
      (by simp [System.view, isDue])
    simp only [System.view, View.mk.injEq, isDue, List.count_cons_self, Nat.add_eq_right] at viewed
    obtain ⟨node, arriving, leaving, waiting, due, releases, live⟩ := viewed
    refine ⟨orderly.of_node inside rfl rfl (fun _ => .inl) (fun _ => .inl) ?_ ?_ ?_,
      orderly.not_full⟩
    · intro j member
      rw [isDue]
      exact List.mem_cons_of_mem i member
    · intro j different
      simp [System.view, System.isLive, setAt_other _ _ different, isDue, Ne.symm different]
    · have nextView : System.view { s with due := rest, releases := setAt s.releases i 1 } i =
          ⟨⟨s.coordinator.ticks, before, false⟩, 0, 0, 0, 0, 1, true⟩ := by
        simp [System.view, System.isLive, node, arriving, leaving, waiting, due] at live ⊢
        exact live
      rw [nextView]
      exact .released before last bound

/-- The state in which the coordinator has noted its oldest report. -/
def System.noted (s : System) (report : Report) (rest : List Report) : System :=
  { s with reports := rest, coordinator := s.coordinator.note report }

theorem phased_noted {report : Report} {rest : List Report} (phased : Phased arrivals s)
    (oldest : s.reports = report :: rest) : Phased arrivals (s.noted report rest) := by
  have reports (i : Nat) : ∀ other ∈ rest, other ∈ s.reports ∨ other.node = i := by
    intro other member
    rw [oldest]
    exact .inl (List.mem_cons_of_mem report member)
  cases report with
  | arrived i =>
      have inside : i < arrivals.length := phased.reports_known (.arrived i) (by simp [oldest])
      obtain ⟨more, viewed⟩ := (phased.phases i inside).of_arriving (by simp [System.view, oldest])
      simp only [System.view, View.mk.injEq, oldest, List.count_cons_self] at viewed
      obtain ⟨node, arriving, leaving, waiting, due, releases, live⟩ := viewed
      refine phased.of_node inside rfl rfl (reports i) ?_ (fun _ => id) ?_ ?_
      · intro j member
        simpa [System.noted, Coordinator.note] using member
      · intro j different
        simp [System.view, System.isLive, System.noted, Coordinator.note, oldest,
          List.count_append, Ne.symm different]
      · have nextView : (s.noted (.arrived i) rest).view i =
            ⟨⟨s.coordinator.ticks + 1, s.coordinator.ticks, false⟩, 0, 0, 1, 0, 0, true⟩ := by
          simp [System.view, System.isLive, System.noted, Coordinator.note, List.count_append,
            node, waiting, due, releases] at arriving leaving live ⊢
          exact ⟨arriving, leaving, live⟩
        rw [nextView]
        exact .waiting more
  | finished i =>
      have inside : i < arrivals.length := phased.reports_known (.finished i) (by simp [oldest])
      obtain ⟨all, viewed⟩ := (phased.phases i inside).of_leaving (by simp [System.view, oldest])
      simp only [System.view, View.mk.injEq, oldest, List.count_cons_self] at viewed
      obtain ⟨node, arriving, leaving, waiting, due, releases, live⟩ := viewed
      refine phased.of_node inside rfl ?_ (reports i) (fun _ => .inl) (fun _ => id) ?_ ?_
      · simp [System.noted, Coordinator.note]
      · intro j different
        simp [System.view, System.isLive, System.noted, Coordinator.note, oldest,
          List.getElem?_set_ne, Ne.symm different]
      · have nextView : (s.noted (.finished i) rest).view i =
            ⟨⟨arrivals.getD i 0, arrivals.getD i 0, true⟩, 0, 0, 0, 0, 0, false⟩ := by
          have known : i < s.coordinator.live.length := phased.live_length ▸ inside
          simp [System.view, System.isLive, System.noted, Coordinator.note,
            node, waiting, due, releases, known] at arriving leaving ⊢
          exact ⟨arriving, leaving⟩
        rw [nextView]
        exact .gone (Nat.le_of_eq all.symm)

theorem Coordinator.isFull_iff {c : Coordinator} :
    c.isFull = true ↔ c.waiting ≠ [] ∧ c.liveCount ≤ c.waiting.length := by
  simp [Coordinator.isFull]

theorem Phased.waiting_live (phased : Phased arrivals s) {i : Nat}
    (waits : i ∈ s.coordinator.waiting) :
    i < arrivals.length ∧ s.coordinator.ticks < arrivals.getD i 0 ∧ s.isLive i = true := by
  have inside := phased.waiting_known i waits
  obtain ⟨more, viewed⟩ := (phased.phases i inside).of_waiting (List.count_pos_iff.mpr waits)
  exact ⟨inside, more, congrArg View.live viewed⟩

theorem Phased.waiting_nodup (phased : Phased arrivals s) : s.coordinator.waiting.Nodup := by
  rw [List.nodup_iff_count_le_one]
  intro i
  by_cases waits : i ∈ s.coordinator.waiting
  · exact (phased.phases i (phased.waiting_known i waits)).waiting_le_one
  · rw [List.count_eq_zero_of_not_mem waits]
    exact Nat.zero_le 1

/-- With a full coordinator, everybody who is live waits: one more would be too many. -/
theorem Phased.waits_of_full (phased : Phased arrivals s) (full : s.coordinator.isFull = true)
    {i : Nat} (live : s.isLive i = true) : i ∈ s.coordinator.waiting := by
  by_contra absent
  have allLive : ∀ j ∈ i :: s.coordinator.waiting, s.coordinator.live.getD j false = true := by
    intro j member
    rcases List.mem_cons.mp member with rfl | waits
    · exact live
    · exact (phased.waiting_live waits).2.2
  have distinct := List.nodup_cons.mpr ⟨absent, phased.waiting_nodup⟩
  have tooMany := length_le_count_live distinct allLive
  have enough := (Coordinator.isFull_iff.mp full).2
  exact Nat.not_succ_le_self _ (Nat.le_trans tooMany enough)

/-- The state in which the coordinator has ticked, so that all who waited are due. -/
def System.ticked (s : System) : System :=
  { s with
    coordinator := { s.coordinator with waiting := [], ticks := s.coordinator.ticks + 1 }
    due := s.coordinator.waiting }

theorem phased_ticked (phased : Phased arrivals s) (full : s.coordinator.isFull = true) :
    Phased arrivals s.ticked where
  phases := by
    intro i inside
    have phase := phased.phases i inside
    cases live : s.isLive i with
    | true =>
        obtain ⟨more, viewed⟩ :=
          phase.of_waiting (List.count_pos_iff.mpr (phased.waits_of_full full live))
        simp only [System.view, View.mk.injEq] at viewed
        obtain ⟨node, arriving, leaving, waiting, due, releases, _⟩ := viewed
        have nextView : s.ticked.view i =
            ⟨⟨s.coordinator.ticks + 1, s.coordinator.ticks, false⟩, 0, 0, 0, 1, 0, true⟩ := by
          simp [System.view, System.isLive, System.ticked, node, arriving, leaving, waiting,
            releases] at live ⊢
          exact live
        rw [nextView]
        exact .due s.coordinator.ticks rfl more
    | false =>
        obtain ⟨bound, viewed⟩ := phase.of_not_live live
        simp only [System.view, View.mk.injEq] at viewed
        obtain ⟨node, arriving, leaving, waiting, due, releases, _⟩ := viewed
        have nextView : s.ticked.view i =
            ⟨⟨arrivals.getD i 0, arrivals.getD i 0, true⟩, 0, 0, 0, 0, 0, false⟩ := by
          simp [System.view, System.isLive, System.ticked, node, arriving, leaving, waiting,
            releases] at live ⊢
          exact live
        rw [nextView]
        exact .gone (Nat.le_succ_of_le bound)
  live_length := phased.live_length
  reports_known := phased.reports_known
  waiting_known := by simp [System.ticked]
  due_known := phased.waiting_known
  releases_known := phased.releases_known
  ticks_reached := by
    obtain ⟨i, waits⟩ := List.exists_mem_of_ne_nil _ (Coordinator.isFull_iff.mp full).1
    obtain ⟨inside, more, _⟩ := phased.waiting_live waits
    exact .inr ⟨i, inside, more⟩

theorem orderly_collect (orderly : Orderly arrivals s)
    (moved : s.move? arrivals .collect = some next) : Orderly arrivals next := by
  simp only [System.move?] at moved
  split at moved
  case h_1 => cases moved
  case h_2 report rest oldest =>
    simp only [Option.ite_none_right_eq_some, Option.some.injEq] at moved
    obtain ⟨⟨noneDue, _⟩, rfl⟩ := moved
    have noted := phased_noted orderly.toPhased oldest
    by_cases full : (s.coordinator.note report).isFull = true
    · have ticked := phased_ticked noted full
      simp only [Coordinator.receive, full, if_true]
      exact ⟨ticked, by simp [Coordinator.isFull]⟩
    · simp only [Coordinator.receive, full]
      rw [Bool.not_eq_true] at full
      exact ⟨by simpa [System.noted, noneDue] using noted, full⟩

/-! ### Runs -/

theorem orderly_move {move : Move} (orderly : Orderly arrivals s)
    (moved : s.move? arrivals move = some next) : Orderly arrivals next := by
  cases move with
  | arrive i => exact orderly_arrive orderly moved
  | finish i => exact orderly_finish orderly moved
  | resume i => exact orderly_resume orderly moved
  | collect => exact orderly_collect orderly moved
  | release => exact orderly_release orderly moved

theorem orderly_run {moves : List Move} (orderly : Orderly arrivals s)
    (ran : System.run? arrivals moves s = some next) : Orderly arrivals next := by
  induction moves generalizing s with
  | nil =>
      cases ran
      exact orderly
  | cons move rest inductionHypothesis =>
      obtain ⟨middle, moved, restRan⟩ := Option.bind_eq_some_iff.mp ran
      exact inductionHypothesis (orderly_move orderly moved) restRan

end Avr.GlobalClock

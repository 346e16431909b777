import Avr.Proofs.Automaton.Arrival

/-!
Contract: where a state machine stands after the transitions it has accepted.

Owns:
- the state that a list of accepted transitions leads to by a given cycle;
- lists that follow the times of a state machine, one transition after the other;
- what of such a list can be open, and what settles while time passes.

Only the last transition of a list can be open, because each one was accepted in a settled state.
-/

namespace Avr.Automaton

/-- The state in which accepted transitions leave a state machine at a cycle. -/
def standing (start : Int) (now : Nat) (log : List Transition) : Int :=
  match log.getLast? with
  | none => start
  | some t => if t.due ≤ now then t.target else inTransition

/-- The transitions lead from the start along the table of times: each was accepted in its source,
with the time that the table gives. -/
inductive Lawful (automaton : StateMachine) : List Transition → Prop
  | nil : Lawful automaton []
  | snoc {log : List Transition} {t : Transition} (before : Lawful automaton log)
      (source : standing automaton.start t.cycle log = t.source)
      (time : automaton.timeBetween t.source t.target = some t.time) :
      Lawful automaton (log ++ [t])

theorem standing_append (start : Int) (now : Nat) (log : List Transition) (t : Transition) :
    standing start now (log ++ [t]) = if t.due ≤ now then t.target else inTransition := by
  rw [standing, List.getLast?_concat]

/-- Only states are connected by a transition, so none of them is the mark of being between two. -/
theorem timeBetween_states {automaton : StateMachine} {source target : Int} {time : Nat}
    (edge : automaton.timeBetween source target = some time) :
    source ≠ inTransition ∧ target ≠ inTransition := by
  rw [StateMachine.timeBetween] at edge
  split at edge
  · cases edge
  · next states =>
    simp only [inTransition]
    omega

variable {automaton : StateMachine} {log : List Transition} {now : Nat}

/-- A settled state machine has settled all its transitions. -/
theorem Lawful.settled (lawful : Lawful automaton log)
    (still : standing automaton.start now log ≠ inTransition) : ∀ t ∈ log, t.due ≤ now := by
  induction lawful generalizing now with
  | nil => exact nofun
  | @snoc log last before source time inductionHypothesis =>
      rw [standing_append] at still
      have lastDue : last.due ≤ now := by
        by_contra late
        exact still (if_neg late)
      intro t member
      rcases List.mem_append.mp member with earlier | isLast
      · have early := inductionHypothesis (source ▸ (timeBetween_states time).1) t earlier
        exact Nat.le_trans early (Nat.le_trans (Nat.le_add_right _ _) lastDue)
      · rwa [List.mem_singleton.mp isLast]

/-- Only the last transition can be due later than now. -/
theorem Lawful.filter_eq (lawful : Lawful automaton log) (past : ∀ t ∈ log, t.cycle ≤ now)
    {test : Transition → Bool} (ahead : ∀ t, test t = true → now < t.due) :
    log.filter test = log.getLast?.toList.filter test := by
  cases lawful with
  | nil => rfl
  | @snoc log last before source time =>
      have closed : log.filter test = [] := by
        rw [List.filter_eq_nil_iff]
        intro t member passes
        have early := before.settled (source ▸ (timeBetween_states time).1) t member
        have lastPast := past last (by simp)
        exact absurd (ahead t passes) (by omega)
      rw [List.filter_append, closed, List.nil_append, List.getLast?_concat]
      rfl

theorem Lawful.filter_eq_nil_or_singleton (lawful : Lawful automaton log)
    (past : ∀ t ∈ log, t.cycle ≤ now) {test : Transition → Bool}
    (ahead : ∀ t, test t = true → now < t.due) :
    log.filter test = [] ∨ ∃ t, log.filter test = [t] := by
  rw [lawful.filter_eq past ahead]
  rcases log.getLast? with _ | last
  · exact .inl rfl
  · rw [Option.toList_some, List.filter_singleton]
    cases test last
    · exact .inl rfl
    · exact .inr ⟨last, rfl⟩

/-- One transition is open while the state machine is between two states, and none otherwise. -/
theorem Lawful.length_open (lawful : Lawful automaton log) (past : ∀ t ∈ log, t.cycle ≤ now)
    (start : automaton.start ≠ inTransition) :
    (log.filter fun t => now < t.due).length =
      if standing automaton.start now log = inTransition then 1 else 0 := by
  rw [lawful.filter_eq past (by simp)]
  cases lawful with
  | nil => exact (if_neg start).symm
  | @snoc log last before source time =>
      have target := (timeBetween_states time).2
      rw [List.getLast?_concat, standing_append, Option.toList_some]
      by_cases due : last.due ≤ now
      · rw [if_pos due, if_neg target, List.filter_cons_of_neg (by simpa using due)]
        rfl
      · rw [if_neg due, if_pos rfl, List.filter_cons_of_pos (by simpa using due)]
        rfl

/-- While time passes, the open transition settles if it is due. -/
theorem Lawful.standing_later (lawful : Lawful automaton log) (past : ∀ t ∈ log, t.cycle ≤ now)
    {later : Nat} (after : now ≤ later) :
    standing automaton.start later log =
      (((log.filter fun t => now < t.due && t.due ≤ later).getLast?).map
        Transition.target).getD (standing automaton.start now log) := by
  rw [lawful.filter_eq past fun t passes => by
    rw [Bool.and_eq_true, decide_eq_true_eq] at passes
    exact passes.1]
  cases lawful with
  | nil => rfl
  | @snoc log last before source time =>
      rw [List.getLast?_concat, standing_append, standing_append, Option.toList_some]
      by_cases due : last.due ≤ now
      · rw [List.filter_cons_of_neg (by simp [due]), if_pos due, if_pos (due.trans after)]
        rfl
      · by_cases dueLater : last.due ≤ later
        · rw [List.filter_cons_of_pos (by simp [dueLater, Nat.not_le.mp due]), if_pos dueLater]
          rfl
        · rw [List.filter_cons_of_neg (by simp [dueLater]), if_neg due, if_neg dueLater]
          rfl

/-- While time passes, the crossings of a list grow by the settling of the open transition. -/
theorem Lawful.crossings_later (lawful : Lawful automaton log) (past : ∀ t ∈ log, t.cycle ≤ now)
    {later : Nat} (after : now ≤ later) :
    log.flatMap (Transition.crossings later) = log.flatMap (Transition.crossings now) ++
      (log.filter fun t => now < t.due && t.due ≤ later).map Transition.settling := by
  rw [lawful.filter_eq past fun t passes => by
    rw [Bool.and_eq_true, decide_eq_true_eq] at passes
    exact passes.1]
  cases lawful with
  | nil => rfl
  | @snoc log last before source time =>
      have closed : log.flatMap (Transition.crossings later) =
          log.flatMap (Transition.crossings now) := by
        refine List.flatMap_congr fun t member => ?_
        have early := before.settled (source ▸ (timeBetween_states time).1) t member
        have due : t.due ≤ now := early.trans (past last (by simp))
        rw [Transition.crossings, Transition.crossings, if_pos due, if_pos (due.trans after)]
      rw [List.flatMap_append, List.flatMap_append, closed, List.getLast?_concat,
        Option.toList_some, List.flatMap_singleton, List.flatMap_singleton, List.append_assoc]
      congr 1
      rw [Transition.crossings, Transition.crossings]
      by_cases due : last.due ≤ now
      · rw [List.filter_cons_of_neg (by simp [due]), if_pos due, if_pos (due.trans after)]
        rfl
      · by_cases dueLater : last.due ≤ later
        · rw [List.filter_cons_of_pos (by simp [dueLater, Nat.not_le.mp due]), if_pos dueLater,
            if_neg due]
          rfl
        · rw [List.filter_cons_of_neg (by simp [dueLater]), if_neg due, if_neg dueLater]
          rfl

end Avr.Automaton

import Avr.Proofs.Automaton.Course

/-!
Contract: a pending transition of a state machine is not overtaken.

Owns:
- runs of a machine as far as one of its state machines is concerned, with the moments they go
  through: requests, deliveries and completions, where those who are called on the way do the same;
- the completion that is owed after some moments: of the transition that was accepted last, unless
  it has fired since;
- what holds of the state machine at every moment of such a run, above all that what is owed is in
  hand or queued, and nothing else;
- the instantaneous transition that overtakes, because its callbacks moved the state machine.

Callbacks run between the decision about a request and the change of state. For a timed transition
the state changes before them, so that whatever they request is refused. An instantaneous one
changes it after them, without another look; here it is asked that it would still be accepted then.
-/

namespace Avr

open Avr.Automaton

/-! ### Queued completions -/

namespace Time.DeltaQueue

universe u

variable {α : Type u}

/-- The queued events, in order of time. -/
def queued (q : DeltaQueue α) : List α :=
  q.links.flatMap Link.events

theorem events_insert_perm (event : α) (cycles : Nat) (links : List (Link α)) :
    ((insert event cycles links).flatMap Link.events).Perm
      (event :: links.flatMap Link.events) := by
  induction links generalizing cycles with
  | nil => exact .refl _
  | cons link rest inductionHypothesis =>
      rw [insert]
      split
      · exact .refl _
      · split
        · show ((link.events ++ [event]) ++ rest.flatMap Link.events).Perm _
          rw [List.append_assoc]
          exact List.perm_middle
        · show (link.events ++ (insert event _ rest).flatMap Link.events).Perm _
          exact ((inductionHypothesis _).append_left _).trans List.perm_middle

theorem queued_add_perm (q : DeltaQueue α) (event : α) (cycles : Nat) :
    (q.add event cycles).queued.Perm (event :: q.queued) :=
  events_insert_perm event cycles q.links

/-- What is popped leaves the front of the queue. -/
theorem queued_popDue (q : DeltaQueue α) :
    q.queued = q.popDue.1.getD [] ++ q.popDue.2.queued := by
  rw [popDue]
  split
  · next empty => simp [queued, empty]
  · next link rest found =>
    split
    · simp [queued, found]
    · simp [queued, found]

theorem countMatching_eq_filter (q : DeltaQueue α) (matching : α → Bool) :
    q.countMatching matching = (q.queued.filter matching).length := by
  rw [countMatching, queued]
  induction q.links with
  | nil => rfl
  | cons link rest inductionHypothesis =>
      rw [List.foldr_cons, inductionHypothesis, List.flatMap_cons, List.filter_append,
        List.length_append, List.countP_eq_length_filter]

end Time.DeltaQueue

namespace Machine

open Avr.Time

variable {World : Type} {env : Environment World} {id : Nat} {automaton : StateMachine}
  {m next : Machine World} {held : List Event} {last : Int} {owed : Option Event}

/-- The queued events that complete a transition of a state machine. -/
def completions (id : Nat) (m : Machine World) : List Event :=
  m.clock.queue.queued.filter (Event.completes id)

/-- The current state of a state machine, if it exists. -/
def state? (id : Nat) (m : Machine World) : Option Int :=
  m.stateMachines[id]?.map StateMachine.current

/-! ### Runs -/

/-- What becomes of the completions of a state machine: a timed transition is accepted, to which the
given completion belongs, or a completion fires. -/
inductive News where
  | accepts (completion : Event)
  | fires
  | none
deriving DecidableEq, Repr

/-- A moment of a run: the machine, the completions of a state machine that are in hand, of
transitions that are accepted and not queued yet and from the batch that is being delivered, and
what became of them. -/
structure Moment (World : Type) where
  machine : Machine World
  held : List Event
  news : News

/-- A timed transition owes its completion from when it is accepted until it fires. -/
def News.owes : News → Option Event → Option Event
  | .accepts completion, _ => some completion
  | .fires, _ => Option.none
  | .none, before => before

/-- The completion that is owed after some moments, if one is. -/
def owedAfter (owed : Option Event) (moments : List (Moment World)) : Option Event :=
  moments.foldl (fun before moment => moment.news.owes before) owed

/-- Neither a state machine, apart from its probes and owners, nor what is queued for it changed. -/
structure Bypasses (id : Nat) (m next : Machine World) : Prop where
  state : state? id next = state? id m
  times : next.stateMachines[id]?.map StateMachine.times =
    m.stateMachines[id]?.map StateMachine.times
  completions : completions id next = completions id m

/-- A machine in which a timed transition was accepted, before its probes are called. -/
def begun (env : Environment World) (id : Nat) (automaton : StateMachine) (target : Int)
    (time : Nat) (m : Machine World) : Machine World :=
  (note env (.transition automaton.name automaton.current target time) m).2.settleIn id
    inTransition

/-- A machine in which the probes before an instantaneous transition were called. -/
def announced (env : Environment World) (automaton : StateMachine) (target : Int)
    (m : Machine World) : Machine World :=
  (notifyAll env (automaton.probesFor automaton.current target)
    (.beforeTransition automaton.current target)
    (note env (.transition automaton.name automaton.current target 0) m).2).2

/-- Runs of a machine from one moment to another, with the moments in between, for one of its state
machines. Whoever is called on the way does such runs in turn. An instantaneous transition would
still be accepted when the probes before it have been called. -/
inductive Conduct (id : Nat) : {α : Type} → List Event → Action World α → Machine World →
    List (Moment World) → List Event → Prop where
  | done {α : Type} (value : α) (held : List Event) (m : Machine World) :
      Conduct id held (pure value) m [] held
  | andThen {α β : Type} {act : Action World α} {rest : α → Action World β}
      {held middle left : List Event} {m : Machine World} {earlier later : List (Moment World)}
      (first : Conduct id held act m earlier middle)
      (second : Conduct id middle (rest (act m).1) (act m).2 later left) :
      Conduct id held (act >>= rest) m (earlier ++ later) left
  | aside {α : Type} {act : Action World α} {m : Machine World} (held : List Event)
      (bypasses : Bypasses id m (act m).2) :
      Conduct id held act m [⟨(act m).2, held, .none⟩] held
  | timed {env : Environment World} {automaton : StateMachine} {target : Int} {time : Nat}
      {held : List Event} {m : Machine World} {calls : List (Moment World)}
      (found : m.stateMachines[id]? = some automaton)
      (accepts : automaton.accept target = .ok time) (takes : 0 < time)
      (before : Conduct id (.arrival id automaton.current target :: held)
        (notifyAll env (automaton.probesFor automaton.current target)
          (.beforeTransition automaton.current target))
        (begun env id automaton target time m) calls
        (.arrival id automaton.current target :: held)) :
      Conduct id held (requestTransition env id target).run m
        (⟨begun env id automaton target time m, .arrival id automaton.current target :: held,
            .accepts (.arrival id automaton.current target)⟩ ::
          calls ++ [⟨((requestTransition env id target).run m).2, held, .none⟩]) held
  | instant {env : Environment World} {automaton later : StateMachine} {target : Int} {time : Nat}
      {held : List Event} {m : Machine World} {calls callsAfter : List (Moment World)}
      (found : m.stateMachines[id]? = some automaton)
      (accepts : automaton.accept target = .ok 0)
      (before : Conduct id held
        (notifyAll env (automaton.probesFor automaton.current target)
          (.beforeTransition automaton.current target))
        (note env (.transition automaton.name automaton.current target 0) m).2 calls held)
      (foundLater : (announced env automaton target m).stateMachines[id]? = some later)
      (still : later.accept target = .ok time)
      (after : Conduct id held
        (notifyAll env (automaton.probesFor automaton.current target)
          (.afterTransition automaton.current target))
        ((announced env automaton target m).settleIn id target) callsAfter held) :
      Conduct id held (requestTransition env id target).run m
        (calls ++ ⟨(announced env automaton target m).settleIn id target, held, .none⟩ ::
          callsAfter) held
  | delivered {env : Environment World} {bound : Nat} {batch : List Event} {held : List Event}
      {m : Machine World} {calls later : List (Moment World)}
      (due : m.clock.queue.popDue.1 = some batch)
      (fires : Conduct id (batch.filter (Event.completes id) ++ held) (batch.forM (fire env))
        (m.setQueue m.clock.queue.popDue.2) calls held)
      (rest : Conduct id held (deliver env bound)
        (batch.forM (fire env) (m.setQueue m.clock.queue.popDue.2)).2 later held) :
      Conduct id held (deliver env (bound + 1)) m
        (⟨m.setQueue m.clock.queue.popDue.2, batch.filter (Event.completes id) ++ held, .none⟩ ::
          calls ++ later) held
  | completed {env : Environment World} {automaton : StateMachine} {source target : Int}
      {held : List Event} {m : Machine World} {calls : List (Moment World)}
      (found : m.stateMachines[id]? = some automaton) (owned : 0 < automaton.owners)
      (after : Conduct id held
        (notifyAll env (automaton.probesFor source target) (.afterTransition source target))
        ((m.addOwner id).settleIn id target) calls held) :
      Conduct id (.arrival id source target :: held) (completeTransition env id source target) m
        (⟨(m.addOwner id).settleIn id target, held, .fires⟩ :: calls) held
  | lapsed {env : Environment World} {automaton : StateMachine} {source target : Int}
      {held : List Event} {m : Machine World}
      (found : m.stateMachines[id]? = some automaton) (disowned : automaton.owners = 0) :
      Conduct id (.arrival id source target :: held) (completeTransition env id source target) m
        [⟨m, held, .fires⟩] held

/-! ### What holds at every moment -/

/-- A state machine with the times of `automaton` stands in the state `last`, or is on its way from
there. What is owed is in hand or queued, and it completes the way from there. -/
structure Stands (id : Nat) (automaton : StateMachine) (last : Int) (owed : Option Event)
    (held : List Event) (m : Machine World) : Prop where
  times : m.stateMachines[id]?.map StateMachine.times = some automaton.times
  state : state? id m = some last ∨ state? id m = some inTransition
  pending : held ++ completions id m = owed.toList
  moving : ∀ completion ∈ owed, state? id m = some inTransition ∧
    ∃ target, completion = .arrival id last target ∧
      (automaton.timeBetween last target).isSome

theorem eq_toList_of_perm {events : List Event} (same : events.Perm owed.toList) :
    events = owed.toList := by
  cases owed with
  | none => exact List.perm_nil.mp same
  | some completion => exact List.perm_singleton.mp same

namespace Stands

/-- The state machine is what it was, and so is what is pending, wherever it is. -/
theorem of_perm (stands : Stands id automaton last owed held m) {left : List Event}
    (state : state? id next = state? id m)
    (times : next.stateMachines[id]?.map StateMachine.times =
      m.stateMachines[id]?.map StateMachine.times)
    (same : (left ++ completions id next).Perm (held ++ completions id m)) :
    Stands id automaton last owed left next where
  times := times.trans stands.times
  state := state ▸ stands.state
  pending := eq_toList_of_perm (stands.pending ▸ same)
  moving completion isOwed := state ▸ stands.moving completion isOwed

theorem bypass (stands : Stands id automaton last owed held m) (bypasses : Bypasses id m next) :
    Stands id automaton last owed held next :=
  stands.of_perm bypasses.state bypasses.times (.of_eq (by rw [bypasses.completions]))

/-- A settled state machine owes nothing. -/
theorem nothing_owed (stands : Stands id automaton last owed held m)
    (settled : state? id m ≠ some inTransition) : owed = none := by
  apply Option.eq_none_iff_forall_not_mem.mpr
  intro completion isOwed
  exact settled (stands.moving completion isOwed).1

theorem found_state (found : m.stateMachines[id]? = some automaton) :
    state? id m = some automaton.current := by
  rw [state?, found]
  rfl

theorem state_settleIn (found : m.stateMachines[id]? = some automaton) (state : Int) :
    state? id (m.settleIn id state) = some state := by
  rw [state?, settleIn_stateMachines, getElem?_settleAt, found]
  simp

theorem times_settleIn (m : Machine World) (id : Nat) (state : Int) :
    (m.settleIn id state).stateMachines[id]?.map StateMachine.times =
      m.stateMachines[id]?.map StateMachine.times := by
  rw [settleIn_stateMachines, getElem?_settleAt, Option.map_map]
  rfl

/-- An accepted request finds the state machine settled, with nothing pending. -/
theorem accepted (stands : Stands id automaton last owed held m) {now : StateMachine} {target : Int}
    {time : Nat} (found : m.stateMachines[id]? = some now)
    (accepts : now.accept target = .ok time) :
    now.current = last ∧ (automaton.timeBetween last target).isSome ∧ target ≠ inTransition ∧
      owed = none := by
  obtain ⟨settled, _, edge⟩ := (accept_eq_ok_iff now target time).mp accepts
  have current := found_state found
  have here : now.current = last := by
    rcases stands.state with isLast | moving
    · rw [current] at isLast
      exact Option.some.inj isLast
    · rw [current] at moving
      exact absurd (Option.some.inj moving) settled
  have times : now.times = automaton.times := by
    have same := stands.times
    rw [found] at same
    exact Option.some.inj same
  have edgeLast : automaton.timeBetween last target = some time := by
    rw [StateMachine.timeBetween, ← times, ← here]
    exact edge
  refine ⟨here, by rw [edgeLast]; rfl, (timeBetween_states edge).2, ?_⟩
  apply stands.nothing_owed
  rw [current]
  simpa using settled

/-- A timed transition is pending from the moment in which it is accepted. -/
theorem begin (stands : Stands id automaton last owed held m) {now : StateMachine} {target : Int}
    {time : Nat} (found : m.stateMachines[id]? = some now)
    (accepts : now.accept target = .ok time) :
    Stands id automaton last (some (.arrival id now.current target))
      (.arrival id now.current target :: held) (m.settleIn id inTransition) := by
  obtain ⟨here, edge, _, rfl⟩ := stands.accepted found accepts
  have moving := state_settleIn found inTransition
  constructor
  case times => exact (times_settleIn m id _).trans stands.times
  case state => exact .inr moving
  case pending => exact congrArg (List.cons _) stands.pending
  case moving =>
    intro completion isOwed
    cases isOwed
    exact ⟨moving, target, by rw [here], edge⟩

/-- Once its completion is queued, it is still pending. -/
theorem schedule {source target : Int} (stands : Stands id automaton last owed
      (.arrival id source target :: held) m) (env : Environment World) (time : Nat) :
    Stands id automaton last owed held
      (schedule env (.arrival id source target) time m).2 := by
  have queue : (Machine.schedule env (.arrival id source target) time m).2.clock.queue =
      m.clock.queue.add (.arrival id source target) time := rfl
  have queued : (completions id (Machine.schedule env (.arrival id source target) time m).2).Perm
      (.arrival id source target :: completions id m) := by
    have added := (m.clock.queue.queued_add_perm (.arrival id source target) time).filter
      (Event.completes id)
    rwa [List.filter_cons_of_pos (by simp [Event.completes]), ← queue] at added
  exact stands.of_perm rfl rfl ((queued.append_left held).trans List.perm_middle)

/-- The batch that is delivered is in hand instead of in the queue. -/
theorem take (stands : Stands id automaton last owed held m) {batch : List Event}
    (due : m.clock.queue.popDue.1 = some batch) :
    Stands id automaton last owed (batch.filter (Event.completes id) ++ held)
      (m.setQueue m.clock.queue.popDue.2) := by
  have front : completions id m = batch.filter (Event.completes id) ++
      completions id (m.setQueue m.clock.queue.popDue.2) := by
    rw [completions, m.clock.queue.queued_popDue, due, List.filter_append]
    rfl
  have same : (batch.filter (Event.completes id) ++ held ++
      completions id (m.setQueue m.clock.queue.popDue.2)).Perm (held ++ completions id m) := by
    rw [front, ← List.append_assoc]
    exact List.perm_append_comm.append_right _
  exact stands.of_perm rfl rfl same

/-- With nothing pending, a state machine may settle in any state. -/
theorem settled {now : StateMachine} (found : m.stateMachines[id]? = some now)
    (times : m.stateMachines[id]?.map StateMachine.times = some automaton.times)
    (nothing : held ++ completions id m = []) (target : Int) :
    Stands id automaton target none held (m.settleIn id target) where
  times := (times_settleIn m id _).trans times
  state := .inl (state_settleIn found target)
  pending := nothing
  moving _ isOwed := by cases isOwed

/-- A completion that fires was the only one, and it leads along the table. -/
theorem fired {source target : Int}
    (stands : Stands id automaton last owed (.arrival id source target :: held) m) :
    source = last ∧ (automaton.timeBetween last target).isSome ∧
      held ++ completions id m = [] := by
  have pending : .arrival id source target :: (held ++ completions id m) = owed.toList :=
    stands.pending
  cases owed with
  | none => cases pending
  | some completion =>
      obtain ⟨same, nothing⟩ := List.cons.inj pending
      obtain ⟨_, next, isNext, edge⟩ := stands.moving completion rfl
      cases same.trans isNext
      exact ⟨rfl, edge, nothing⟩

end Stands

/-! ### Paths of settled states -/

/-- The states lead from the first to the last, each the one before or an edge away from it. -/
inductive Walk (automaton : StateMachine) : Int → List Int → Int → Prop
  | stay (state : Int) : Walk automaton state [] state
  | move {source next last : Int} {states : List Int}
      (edge : source = next ∨ (automaton.timeBetween source next).isSome)
      (rest : Walk automaton next states last) : Walk automaton source (next :: states) last

theorem Walk.append {source middle last : Int} {earlier later : List Int}
    (first : Walk automaton source earlier middle) (rest : Walk automaton middle later last) :
    Walk automaton source (earlier ++ later) last := by
  induction first with
  | stay => exact rest
  | move edge _ inductionHypothesis => exact .move edge (inductionHypothesis rest)

/-- The states in which a state machine is settled at some moments, in their order. -/
def settledStates (id : Nat) (moments : List (Moment World)) : List Int :=
  moments.filterMap fun moment => (state? id moment.machine).filter (· ≠ inTransition)

theorem settledStates_append (earlier later : List (Moment World)) :
    settledStates id (earlier ++ later) = settledStates id earlier ++ settledStates id later :=
  List.filterMap_append

theorem settledStates_singleton {state : Int} (here : state? id m = some state) (news : News) :
    settledStates id [⟨m, held, news⟩] = if state = inTransition then [] else [state] := by
  simp only [settledStates, List.filterMap_cons, List.filterMap_nil, here, Option.filter_some]
  by_cases moving : state = inTransition
  · simp [moving]
  · simp [moving]

/-- Nothing settles anew while a state machine stands or is on its way. -/
theorem Stands.walk (stands : Stands id automaton last owed held m) (news : News) :
    Walk automaton last (settledStates id [⟨m, held, news⟩]) last := by
  rcases stands.state with here | moving
  · rw [settledStates_singleton here]
    split
    · exact .stay last
    · exact .move (.inl rfl) (.stay last)
  · rw [settledStates_singleton moving, if_pos rfl]
    exact .stay last

theorem walk_settleIn {now : StateMachine} {target : Int}
    (found : m.stateMachines[id]? = some now)
    (edge : (automaton.timeBetween last target).isSome) (news : News) :
    Walk automaton last (settledStates id [⟨m.settleIn id target, held, news⟩]) target := by
  obtain ⟨time, isTime⟩ := Option.isSome_iff_exists.mp edge
  have settled : target ≠ inTransition := (timeBetween_states isTime).2
  rw [settledStates_singleton (Stands.state_settleIn found target), if_neg settled]
  exact .move (.inr edge) (.stay target)

/-! ### Whole runs -/

theorem owedAfter_append (owed : Option Event) (earlier later : List (Moment World)) :
    owedAfter owed (earlier ++ later) = owedAfter (owedAfter owed earlier) later :=
  List.foldl_append

/-- Moments that lead a state machine from the state `last` along its table of times, up to one
where it stands in `next`. -/
structure Leading (id : Nat) (automaton : StateMachine) (last : Int) (owed : Option Event)
    (moments : List (Moment World)) (next : Int) (left : List Event) (finish : Machine World) :
    Prop where
  walk : Walk automaton last (settledStates id moments) next
  stands : Stands id automaton next (owedAfter owed moments) left finish
  every : ∀ earlier moment later, moments = earlier ++ moment :: later →
    ∃ state, Stands id automaton state (owedAfter owed (earlier ++ [moment])) moment.held
      moment.machine

namespace Leading

theorem nil (stands : Stands id automaton last owed held m) :
    Leading id automaton last owed [] last held m where
  walk := .stay last
  stands := stands
  every earlier _ later split := absurd split.symm (by simp)

theorem append {middle next : Int} {earlier later : List (Moment World)}
    {between left : List Event} {halfway finish : Machine World}
    (first : Leading id automaton last owed earlier middle between halfway)
    (rest : Leading id automaton middle (owedAfter owed earlier) later next left finish) :
    Leading id automaton last owed (earlier ++ later) next left finish where
  walk := by
    rw [settledStates_append]
    exact first.walk.append rest.walk
  stands := owedAfter_append owed earlier later ▸ rest.stands
  every before moment after split := by
    rcases List.append_eq_append_iff.mp split with
      ⟨among, isBefore, isRest⟩ | ⟨among, isFirst, isAfter⟩
    · rw [isBefore, List.append_assoc, owedAfter_append]
      exact rest.every among moment after isRest
    · cases among with
      | nil =>
          rw [List.append_nil] at isFirst
          rw [← isFirst, owedAfter_append]
          exact rest.every [] moment after isAfter.symm
      | cons _ among =>
          cases isAfter
          exact first.every before moment among isFirst

theorem bypass {next : Int} {moments : List (Moment World)} {left : List Event}
    {finish later : Machine World}
    (leads : Leading id automaton last owed moments next left finish)
    (bypasses : Bypasses id finish later) :
    Leading id automaton last owed moments next left later :=
  { leads with stands := leads.stands.bypass bypasses }

/-- One moment, which leads to where the state machine stands at it. -/
theorem single {next : Int} {news : News}
    (walk : Walk automaton last (settledStates id [⟨m, held, news⟩]) next)
    (stands : Stands id automaton next (news.owes owed) held m) :
    Leading id automaton last owed [⟨m, held, news⟩] next held m where
  walk := walk
  stands := stands
  every earlier moment later split := by
    obtain ⟨rfl, rfl, rfl⟩ | ⟨_, rfl, rest⟩ := List.cons_eq_append_iff.mp split
    · exact ⟨next, stands⟩
    · simp at rest

/-- One moment, at which the state machine stands where it did. -/
theorem same {news : News} (stands : Stands id automaton last (news.owes owed) held m) :
    Leading id automaton last owed [⟨m, held, news⟩] last held m :=
  .single (stands.walk news) stands

/-- One moment, at which the state machine has settled in another state. -/
theorem settle {now : StateMachine} {target : Int} {news : News}
    (found : m.stateMachines[id]? = some now)
    (edge : (automaton.timeBetween last target).isSome)
    (stands : Stands id automaton target (news.owes owed) held (m.settleIn id target)) :
    Leading id automaton last owed [⟨m.settleIn id target, held, news⟩] target held
      (m.settleIn id target) :=
  .single (walk_settleIn found edge news) stands

end Leading

theorem run_requestTransition_timed (env : Environment World) {target : Int} {time : Nat}
    (found : m.stateMachines[id]? = some automaton) (accepts : automaton.accept target = .ok time)
    (takes : 0 < time) :
    ((requestTransition env id target).run m).2 =
      (schedule env (.arrival id automaton.current target) time
        (notifyAll env (automaton.probesFor automaton.current target)
          (.beforeTransition automaton.current target)
          (begun env id automaton target time m)).2).2 := by
  rw [requestTransition_eq_begin env found accepts]
  cases time with
  | zero => exact absurd takes (Nat.lt_irrefl 0)
  | succ time => rw [beginTransition_succ]; rfl

theorem run_requestTransition_instant (env : Environment World) {target : Int}
    (found : m.stateMachines[id]? = some automaton) (accepts : automaton.accept target = .ok 0) :
    ((requestTransition env id target).run m).2 =
      (notifyAll env (automaton.probesFor automaton.current target)
        (.afterTransition automaton.current target)
        ((announced env automaton target m).settleIn id target)).2 := by
  rw [requestTransition_eq_begin env found accepts, beginTransition_zero]
  rfl

theorem bypasses_note (env : Environment World) (id : Nat) (notice : Notice) (m : Machine World) :
    Bypasses id m (note env notice m).2 :=
  ⟨rfl, rfl, rfl⟩

theorem bypasses_modify (m : Machine World) (id other : Nat) {change : StateMachine → StateMachine}
    (current : ∀ automaton, (change automaton).current = automaton.current)
    (times : ∀ automaton, (change automaton).times = automaton.times) :
    Bypasses id m (m.modifyStateMachine other change) := by
  have here {α : Type} (read : StateMachine → α)
      (kept : ∀ automaton, read (change automaton) = read automaton) :
      (m.modifyStateMachine other change).stateMachines[id]?.map read =
        m.stateMachines[id]?.map read := by
    show (m.stateMachines.modify other change)[id]?.map read = _
    rw [Array.getElem?_modify]
    split
    · rw [Option.map_map]
      congr 1
      funext automaton
      exact kept automaton
    · rfl
  exact ⟨here StateMachine.current current, here StateMachine.times times, rfl⟩

theorem bypasses_addOwner (m : Machine World) (id : Nat) : Bypasses id m (m.addOwner id) :=
  bypasses_modify m id id (fun _ => rfl) fun _ => rfl

theorem bypasses_dropOwner (m : Machine World) (id : Nat) : Bypasses id m (m.dropOwner id) :=
  bypasses_modify m id id (fun _ => rfl) fun _ => rfl

theorem completeTransition_disowned (env : Environment World) (source target : Int)
    (found : m.stateMachines[id]? = some automaton) (disowned : automaton.owners = 0) :
    (completeTransition env id source target m).2 = m := by
  rw [completeTransition, Action.apply_get_bind, found]
  dsimp only
  rw [if_neg (by omega)]
  rfl

/-- Every run leads a state machine along its table of times, with what is owed and nothing else
pending at any moment. -/
theorem Conduct.leads {α : Type} {act : Action World α} {moments : List (Moment World)}
    {left : List Event} (conduct : Conduct id held act m moments left)
    (stands : Stands id automaton last owed held m) :
    ∃ next, Leading id automaton last owed moments next left (act m).2 := by
  induction conduct generalizing last owed with
  | done value held m => exact ⟨last, .nil stands⟩
  | andThen _ _ firstHypothesis secondHypothesis =>
      obtain ⟨middle, first⟩ := firstHypothesis stands
      obtain ⟨next, second⟩ := secondHypothesis first.stands
      exact ⟨next, first.append second⟩
  | aside held bypasses => exact ⟨last, .same (stands.bypass bypasses)⟩
  | @timed env now target time held m calls found accepts takes before inductionHypothesis =>
      have noted := stands.bypass
        (bypasses_note env id (.transition now.name now.current target time) m)
      have begins := noted.begin found accepts
      obtain ⟨next, called⟩ := inductionHypothesis begins
      have scheduled := called.stands.schedule env time
      rw [← run_requestTransition_timed env found accepts takes] at scheduled
      have accepted : Leading id automaton last owed
          [⟨begun env id now target time m, .arrival id now.current target :: held,
            .accepts (.arrival id now.current target)⟩] last
          (.arrival id now.current target :: held) (begun env id now target time m) :=
        .same begins
      exact ⟨next, (accepted.append called).append (.same scheduled)⟩
  | @instant env now later target time held m calls callsAfter found accepts before foundLater
      still after beforeHypothesis afterHypothesis =>
      have noted := stands.bypass
        (bypasses_note env id (.transition now.name now.current target 0) m)
      obtain ⟨middle, called⟩ := beforeHypothesis noted
      have announces : Stands id automaton middle (owedAfter owed calls) held
          (announced env now target m) := called.stands
      obtain ⟨_, edge, _, nothing⟩ := announces.accepted foundLater still
      have pending := announces.pending
      rw [nothing] at pending
      have settles := Stands.settled foundLater announces.times pending target
      obtain ⟨next, rest⟩ := afterHypothesis settles
      have settled : Leading id automaton middle (owedAfter owed calls)
          [⟨(announced env now target m).settleIn id target, held, .none⟩] target held
          ((announced env now target m).settleIn id target) :=
        .settle foundLater edge (nothing ▸ settles)
      rw [run_requestTransition_instant env found accepts]
      exact ⟨next, called.append (settled.append (nothing ▸ rest))⟩
  | @delivered env bound batch held m calls later due fires rest firesHypothesis restHypothesis =>
      have taken := stands.take due
      obtain ⟨middle, fired⟩ := firesHypothesis taken
      obtain ⟨next, delivers⟩ := restHypothesis fired.stands
      rw [deliver_succ, due]
      have takes : Leading id automaton last owed
          [⟨m.setQueue m.clock.queue.popDue.2, batch.filter (Event.completes id) ++ held, .none⟩]
          last _ _ := .same taken
      exact ⟨next, (takes.append fired).append delivers⟩
  | @completed env now source target held m calls found owned after inductionHypothesis =>
      obtain ⟨_, edge, nothing⟩ := stands.fired
      have owner := stands.bypass (bypasses_addOwner m id)
      have foundOwned : (m.addOwner id).stateMachines[id]? =
          some { now with owners := now.owners + 1 } := by
        show (m.stateMachines.modify id _)[id]? = _
        rw [Array.getElem?_modify, if_pos rfl, found]
        rfl
      have settles : Stands id automaton target none held ((m.addOwner id).settleIn id target) :=
        Stands.settled foundOwned owner.times nothing target
      obtain ⟨next, rest⟩ := inductionHypothesis settles
      have settled : Leading id automaton last owed
          [⟨(m.addOwner id).settleIn id target, held, .fires⟩] target held
          ((m.addOwner id).settleIn id target) := .settle foundOwned edge settles
      rw [completeTransition_eq env source target found owned]
      exact ⟨next, (settled.append rest).bypass (bypasses_dropOwner _ id)⟩
  | @lapsed env now source target held m found disowned =>
      obtain ⟨_, _, nothing⟩ := stands.fired
      have lapses : Stands id automaton last none held m :=
        { stands with
          pending := nothing
          moving := fun _ isOwed => by cases isOwed }
      rw [completeTransition_disowned env source target found disowned]
      exact ⟨last, .same lapses⟩

/-- While a transition is pending, every request for a state that exists is refused, and changes
nothing. -/
theorem requestTransition_pending (env : Environment World) {target : Int}
    (found : m.stateMachines[id]? = some automaton) (moving : automaton.current = inTransition)
    (range : automaton.hasState target = true) :
    (requestTransition env id target).run m =
      (.error (.transitionInProgress automaton.name target), m) := by
  have refuses : automaton.accept target =
      .error (.transitionInProgress automaton.name target) := by
    rw [StateMachine.accept, if_pos range, if_pos moving]
  rw [requestTransition, Attempt.run_bind, Attempt.run_get]
  simp only [found, refuses]
  rfl

/-- A pending transition is not overtaken, whatever is called on the way.

From the moment in which a timed transition is accepted until its completion fires, this completion
is in hand or queued, and at no moment of a run is there another one. As long as there is one, the
state machine is in transition, and every request for one of its states is refused as such. Every
settled state is an edge of the table away from the one before. -/
theorem pending_transition_is_not_overtaken {start : Machine World}
    (found : start.stateMachines[id]? = some automaton)
    (fresh : start.clock.queue.countMatching (Event.completes id) = 0) {α : Type}
    {act : Action World α} {moments : List (Moment World)}
    (conduct : Conduct id [] act start moments []) :
    (∀ earlier moment later,
      moments ++ [⟨(act start).2, [], .none⟩] = earlier ++ moment :: later →
      let owed := owedAfter none (earlier ++ [moment])
      moment.held ++ completions id moment.machine = owed.toList ∧
      (owed.isSome → ∃ now, moment.machine.stateMachines[id]? = some now ∧
        now.current = inTransition ∧
        ∀ (env : Environment World) target, now.hasState target = true →
          (requestTransition env id target).run moment.machine =
            (.error (.transitionInProgress now.name target), moment.machine))) ∧
      ∃ last, Walk automaton automaton.current (settledStates id moments) last := by
  have nothing : completions id start = [] := by
    apply List.eq_nil_of_length_eq_zero
    rw [completions, ← DeltaQueue.countMatching_eq_filter]
    exact fresh
  have stands : Stands id automaton automaton.current none [] start := by
    constructor
    case times =>
      rw [found]
      rfl
    case state => exact .inl (Stands.found_state found)
    case pending => exact nothing
    case moving =>
      intro _ isOwed
      cases isOwed
  obtain ⟨last, leads⟩ := conduct.leads stands
  refine ⟨?moments, last, leads.walk⟩
  case moments =>
    intro earlier moment later split owed
    have ended : Leading id automaton last (owedAfter none moments)
        [⟨(act start).2, [], .none⟩] last [] (act start).2 := .same leads.stands
    obtain ⟨state, here⟩ := (leads.append ended).every earlier moment later split
    refine ⟨here.pending, ?_⟩
    intro isOwed
    obtain ⟨completion, isCompletion⟩ := Option.isSome_iff_exists.mp isOwed
    obtain ⟨now, foundNow, moving⟩ :=
      Option.map_eq_some_iff.mp (here.moving completion isCompletion).1
    exact ⟨now, foundNow, moving, fun env target range =>
      requestTransition_pending env foundNow moving range⟩

/-! ### Probes that request transitions -/

/-- Time passes as its deliveries do. -/
theorem Conduct.advance {env : Environment World} {cycles : Nat} {moments : List (Moment World)}
    (delivers : Conduct id held (deliver env env.patience)
      (m.setQueue (m.clock.queue.advance cycles)) moments held) :
    Conduct id held (advance env cycles) m
      ([⟨m.setQueue (m.clock.queue.advance cycles), held, .none⟩] ++ moments) held :=
  .andThen (.aside held ⟨rfl, rfl, rfl⟩) delivers

/-- Outside objects of which the probes request every transition again when it begins, and the way
back when it has settled. -/
def insistent : Environment Unit :=
  { silence with
    notify := fun _ hook => do
      match hook with
      | .beforeTransition _ target => let _ ← (requestTransition silence 0 target).run
      | .afterTransition source _ => let _ ← (requestTransition silence 0 source).run
      | _ => return }

/-- A transition is requested and completed. The completion is owed once its probe has been called;
when it fires, the probe requests the way back. -/
theorem conduct_insistent :
    let start : Machine Unit :=
      { new smallPart ⟨.known 0, false, false⟩ () with stateMachines := #[switch 10 0] }
    let act : Action Unit Unit := do
      let _ ← (requestTransition insistent 0 1).run
      advance insistent 10
    let requested := ((requestTransition insistent 0 1).run start).2
    ∃ calls later, owedAfter none calls = some (.arrival 0 0 1) ∧
      Conduct 0 [] act start (calls ++ ⟨requested, [], .none⟩ :: later) [] := by
  intro start act requested
  let expired := requested.setQueue (requested.clock.queue.advance 10)
  let taken := expired.setQueue expired.clock.queue.popDue.2
  let arrived := (taken.addOwner 0).settleIn 0 1
  obtain ⟨calls, accepted, requests⟩ : ∃ calls : List (Moment Unit),
      owedAfter none calls = some (.arrival 0 0 1) ∧
        Conduct 0 [] (requestTransition insistent 0 1).run start
          (calls ++ [⟨requested, [], .none⟩]) [] := by
    have found : start.stateMachines[0]? = some (switch 10 0) := rfl
    have accepts : (switch 10 0).accept 1 = .ok 10 := by decide +kernel
    exact ⟨_, rfl, .timed found accepts (by decide)
      (.aside _ ⟨by decide +kernel, by decide +kernel, by decide +kernel⟩)⟩
  -- what the delivery of the completion calls, from the inside out
  obtain ⟨backward, returns⟩ : ∃ moments,
      Conduct 0 [] (requestTransition silence 0 0).run arrived moments [] := by
    have found : arrived.stateMachines[0]? =
        some { switch 10 0 with current := 1, owners := 2 } := by decide +kernel
    have accepts : StateMachine.accept { switch 10 0 with current := 1, owners := 2 } 0 =
        .ok 10 := by decide +kernel
    exact ⟨_, .timed found accepts (by decide)
      (.aside _ ⟨by decide +kernel, by decide +kernel, by decide +kernel⟩)⟩
  have notifies : Conduct 0 [] (notifyAll insistent [⟨0⟩] (.afterTransition 0 1)) arrived
      (backward ++ [] ++ []) [] :=
    .andThen (.andThen returns (.done _ _ _)) (.done _ _ _)
  have found : taken.stateMachines[0]? =
      some { switch 10 0 with current := inTransition } := by decide +kernel
  have completes : Conduct 0 [.arrival 0 0 1] (fire insistent (.arrival 0 0 1)) taken
      (⟨arrived, [], .fires⟩ :: (backward ++ [] ++ [])) [] :=
    .completed found (by decide) notifies
  have fires : Conduct 0 [.arrival 0 0 1] (([.arrival 0 0 1] : List Event).forM (fire insistent))
      taken (⟨arrived, [], .fires⟩ :: (backward ++ [] ++ []) ++ []) [] :=
    .andThen completes (.done _ _ _)
  have due : expired.clock.queue.popDue.1 = some [.arrival 0 0 1] := by decide +kernel
  obtain ⟨rest, delivers⟩ : ∃ moments, Conduct 0 [] (deliver insistent 1)
      (([.arrival 0 0 1] : List Event).forM (fire insistent) taken).2 moments [] :=
    ⟨_, .aside _ ⟨by decide +kernel, by decide +kernel, by decide +kernel⟩⟩
  have conduct : Conduct 0 [] act start _ [] :=
    .andThen requests (Conduct.advance (.delivered due fires delivers))
  rw [List.append_assoc] at conduct
  exact ⟨calls, _, accepted, conduct⟩

/-- The first request of the probe is refused, and its second one begins the way back. When the
first transition has been requested, its completion is owed and queued, and requests are refused. -/
theorem pending_transition_is_not_overtaken_insistent :
    let start : Machine Unit :=
      { new smallPart ⟨.known 0, false, false⟩ () with stateMachines := #[switch 10 0] }
    let act : Action Unit Unit := do
      let _ ← (requestTransition insistent 0 1).run
      advance insistent 10
    let requested := ((requestTransition insistent 0 1).run start).2
    ∃ moments, Conduct 0 [] act start moments [] ∧
      (∃ earlier later, moments = earlier ++ ⟨requested, [], .none⟩ :: later ∧
        owedAfter none (earlier ++ [⟨requested, [], .none⟩]) = some (.arrival 0 0 1)) ∧
      completions 0 requested = [.arrival 0 0 1] ∧
      ((requestTransition insistent 0 0).run requested).1 =
        .error (.transitionInProgress "switch" 0) ∧
      (∀ moment ∈ moments, (moment.held ++ completions 0 moment.machine).length ≤ 1) ∧
      ∃ last, Walk (switch 10 0) 0 (settledStates 0 moments) last := by
  intro start act requested
  obtain ⟨calls, later, accepted, conduct⟩ := conduct_insistent
  have found : start.stateMachines[0]? = some (switch 10 0) := rfl
  obtain ⟨every, walk⟩ := pending_transition_is_not_overtaken found (by decide +kernel) conduct
  have owes : owedAfter none (calls ++ [⟨requested, [], .none⟩]) = some (.arrival 0 0 1) := by
    rw [owedAfter_append, accepted]
    rfl
  obtain ⟨pending, refuses⟩ := every calls ⟨requested, [], .none⟩ _
    (by rw [List.append_assoc]; rfl)
  rw [owes] at pending refuses
  obtain ⟨now, foundNow, -, refused⟩ := refuses rfl
  have isSwitch : now.hasState 0 = true ∧ now.name = "switch" := by
    have current : requested.stateMachines[0]? =
        some { switch 10 0 with current := inTransition } := by decide +kernel
    cases current.symm.trans foundNow
    exact ⟨by decide +kernel, by decide +kernel⟩
  refine ⟨_, conduct, ⟨calls, later, rfl, owes⟩, pending, ?_, ?_, walk⟩
  · rw [refused insistent 0 isSwitch.1, isSwitch.2]
  · intro moment member
    obtain ⟨before, after, split⟩ := List.append_of_mem (List.mem_append_left _ member)
    rw [(every before moment after split).1]
    exact Option.length_toList_le

/-- Outside objects of which the probes of an instantaneous transition request another one. -/
def restless : Environment Unit :=
  { silence with
    notify := fun _ hook => do
      if hook = .beforeTransition 0 1 then
        let _ ← (requestTransition silence 0 2).run }

/-- A state machine of three states that reaches the second at once, and the third with time. -/
def valve : StateMachine :=
  (StateMachine.new "valve" ["shut", "ajar", "open"] 0
    ⟨3, [some 0, some 0, some 10, none, some 0, none, none, none, some 0]⟩).insertProbe ⟨0⟩

/-- An instantaneous transition overtakes the timed one that its probe has begun: the state machine
settles with a completion queued, and is completed in a state that no edge leads to. -/
theorem instantaneous_transition_overtakes :
    let start : Machine Unit :=
      { new smallPart ⟨.known 0, false, false⟩ () with stateMachines := #[valve] }
    let requested := (requestTransition restless 0 1).run start
    requested.1 = .ok () ∧ requested.2.clock.queue.countMatching (Event.completes 0) = 1 ∧
      state? 0 requested.2 = some 1 ∧
      ((requestTransition restless 0 2).run requested.2).1 =
        .error (.illegalTransition "valve" 1 2) ∧
      state? 0 (advance restless 10 requested.2).2 = some 2 ∧ valve.timeBetween 1 2 = none := by
  decide +kernel

end Machine

end Avr

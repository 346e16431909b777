import Avr.Proofs.Automaton.Walk
import Avr.Proofs.Machine.FastPath

/-!
Contract: state machines on one clock, while transitions are requested and time passes.

Owns:
- courses: requests, advances, and anything beside the state machines, in any order;
- what every course keeps between the accepted transitions, the queued completions, the states and
  the journal of callbacks;
- the theorem that state machines follow their tables of times.

The accepted transitions determine everything: which are open, hence what is queued; where each
state machine stands; and which callbacks there have been.
-/

namespace Avr.Machine

open Avr.Automaton Avr.Time

variable {World : Type} {env : Environment World} {journal : World → List Announcement}
  {initial m next : Machine World} {log : List Transition}

/-- State machines in their start states, with nothing of them on the clock. -/
structure Fresh (m : Machine World) : Prop where
  tidy : DeltaQueue.Tidy m.clock.queue.links
  spent : m.clock.queue.budget = 0
  completions : m.clock.queue.selected Event.isCompletion = []
  current : ∀ automaton ∈ m.stateMachines, automaton.current = automaton.start
  range : ∀ automaton ∈ m.stateMachines, automaton.hasState automaton.start = true
  owned : ∀ automaton ∈ m.stateMachines, 0 < automaton.owners

/-- Requests and advances from a start on, with the transitions that were accepted. An advance
comes to its end when nothing more is due. -/
inductive Course (env : Environment World) (journal : World → List Announcement)
    (initial : Machine World) : List Transition → Machine World → Prop
  | start : Course env journal initial [] initial
  | accepted {log : List Transition} {m : Machine World} {id time : Nat} {target : Int}
      {automaton : StateMachine} (before : Course env journal initial log m)
      (found : m.stateMachines[id]? = some automaton)
      (takes : automaton.timeBetween automaton.current target = some time)
      (accepts : ((requestTransition env id target).run m).1 = .ok ()) :
      Course env journal initial (log ++ [⟨id, automaton.current, target, time, m.cycles⟩])
        ((requestTransition env id target).run m).2
  | refused {log : List Transition} {m : Machine World} {id : Nat} {target : Int} {fault : Fault}
      (before : Course env journal initial log m)
      (refuses : ((requestTransition env id target).run m).1 = .error fault) :
      Course env journal initial log ((requestTransition env id target).run m).2
  | advanced {log : List Transition} {m : Machine World} (cycles : Nat)
      (before : Course env journal initial log m) (caughtUp : (advance env cycles m).2.CaughtUp) :
      Course env journal initial log (advance env cycles m).2
  | aside {log : List Transition} {m next : Machine World}
      (before : Course env journal initial log m) (unheard : Unheard journal m next) :
      Course env journal initial log next

/-- The accepted transitions of one state machine. -/
def transitionsOf (id : Nat) (log : List Transition) : List Transition :=
  log.filter fun t => t.machine = id

/-- The settlings that are queued up to a cycle. -/
def settlings (m : Machine World) (later : Nat) : List Crossing :=
  ((m.clock.queue.selected Event.isCompletion).filter fun entry => entry.time ≤ later).filterMap
    settling?

theorem settlings_sorted (m : Machine World) (later : Nat) :
    (m.settlings later).Pairwise fun earlier later => earlier.cycle ≤ later.cycle := by
  have cycle {entry : Entry Event} {crossing : Crossing}
      (settles : settling? entry = some crossing) : crossing.cycle = entry.time := by
    rw [settling?] at settles
    split at settles
    · obtain rfl := Option.some.inj settles
      rfl
    · cases settles
  refine (m.clock.queue.selected_sorted.filter _).filterMap settling?
    fun earlier later le crossing first crossing' second => ?_
  rw [cycle first, cycle second]
  exact le

/-- What accepted transitions say about a machine and its journal. -/
structure Follows (journal : World → List Announcement) (initial : Machine World)
    (log : List Transition) (trace : List Crossing) (m : Machine World) : Prop where
  tidy : DeltaQueue.Tidy m.clock.queue.links
  spent : m.clock.queue.budget = 0
  known : ∀ t ∈ log, ∃ automaton, initial.stateMachines[t.machine]? = some automaton
  past : ∀ t ∈ log, t.cycle ≤ m.cycles
  lawful : ∀ {id : Nat} {automaton : StateMachine}, initial.stateMachines[id]? = some automaton →
    Lawful automaton (transitionsOf id log)
  machines : ∀ id, m.stateMachines[id]? =
    initial.stateMachines[id]?.map fun automaton : StateMachine =>
      { automaton with current := standing automaton.start m.cycles (transitionsOf id log) }
  pending : (m.clock.queue.selected Event.isCompletion).Perm
    ((log.filter fun t => m.cycles < t.due).map Transition.completion)
  order : trace.Pairwise fun earlier later => earlier.cycle ≤ later.cycle
  traced : ∀ crossing ∈ trace, crossing.cycle ≤ m.cycles
  crossings : ∀ id, (trace.filter fun crossing => crossing.machine = id) =
    (transitionsOf id log).flatMap (Transition.crossings m.cycles)
  heard : journal m.world =
    journal initial.world ++ trace.flatMap (Crossing.announcements initial.stateMachines)

namespace Follows

variable {trace : List Crossing}

theorem fresh (fresh : Fresh initial) : Follows journal initial [] [] initial where
  tidy := fresh.tidy
  spent := fresh.spent
  known := nofun
  past := nofun
  lawful _ := .nil
  machines id := by
    rcases found : initial.stateMachines[id]? with _ | automaton
    · rfl
    · rw [Option.map_some]
      exact congrArg some (congrArg (fun current => { automaton with current })
        (fresh.current automaton (Array.mem_of_getElem? found)))
  pending := by rw [fresh.completions]; exact .nil
  order := .nil
  traced := nofun
  crossings _ := rfl
  heard := (List.append_nil _).symm

theorem aside (follows : Follows journal initial log trace m) (unheard : Unheard journal m next) :
    Follows journal initial log trace next := by
  have same : next.cycles = m.cycles := unheard.count
  obtain ⟨tidy, completions⟩ := unheard.queue follows.tidy
  exact
    { tidy
      spent := unheard.budget.trans follows.spent
      known := follows.known
      past := by rw [same]; exact follows.past
      lawful := follows.lawful
      machines := by rw [unheard.machines, same]; exact follows.machines
      pending := by rw [completions, same]; exact follows.pending
      order := follows.order
      traced := by rw [same]; exact follows.traced
      crossings := by rw [same]; exact follows.crossings
      heard := unheard.journal.trans follows.heard }

/-- The lists of probes are those of the start. -/
theorem announcements_eq (follows : Follows journal initial log trace m) :
    Crossing.announcements m.stateMachines = Crossing.announcements initial.stateMachines := by
  funext crossing
  rw [Crossing.announcements, Crossing.announcements, follows.machines]
  cases initial.stateMachines[crossing.machine]? <;> rfl

/-! ### Accepted requests -/

theorem transitionsOf_append (id : Nat) (log : List Transition) (t : Transition) :
    transitionsOf id (log ++ [t]) =
      transitionsOf id log ++ if t.machine = id then [t] else [] := by
  rw [transitionsOf, List.filter_append, List.filter_singleton]
  by_cases same : t.machine = id <;> simp [same, transitionsOf]

theorem filter_crossings (id : Nat) (t : Transition) (now : Nat) :
    ((t.crossings now).filter fun crossing => crossing.machine = id) =
      if t.machine = id then t.crossings now else [] := by
  have machine : ∀ crossing ∈ t.crossings now, crossing.machine = t.machine := by
    intro crossing member
    rcases Transition.eq_of_mem_crossings member with rfl | ⟨-, rfl⟩ <;> rfl
  split
  · next same =>
    rw [List.filter_eq_self]
    intro crossing member
    simpa [machine crossing member] using same
  · next different =>
    rw [List.filter_eq_nil_iff]
    intro crossing member
    simpa [machine crossing member] using different

theorem begun (follows : Follows journal initial log trace m) {t : Transition}
    {automaton : StateMachine} (found : m.stateMachines[t.machine]? = some automaton)
    (source : t.source = automaton.current)
    (takes : automaton.timeBetween t.source t.target = some t.time) (cycle : t.cycle = m.cycles)
    (begun : Begun journal t m next) :
    Follows journal initial (log ++ [t]) (trace ++ t.crossings m.cycles) next := by
  have same : next.cycles = m.cycles := begun.count
  have foundFirst := follows.machines t.machine
  rw [found] at foundFirst
  obtain ⟨first, isFirst, rfl⟩ := Option.map_eq_some_iff.mp foundFirst.symm
  obtain ⟨tidy, pending⟩ := begun.queue follows.tidy
  exact
    { tidy
      spent := begun.budget.trans follows.spent
      known := by
        intro other member
        rcases List.mem_append.mp member with earlier | isLast
        · exact follows.known other earlier
        · exact List.mem_singleton.mp isLast ▸ ⟨first, isFirst⟩
      past := by
        intro other member
        rw [same]
        rcases List.mem_append.mp member with earlier | isLast
        · exact follows.past other earlier
        · exact List.mem_singleton.mp isLast ▸ Nat.le_of_eq cycle
      lawful := by
        intro id other foundOther
        rw [transitionsOf_append]
        split
        · next sameId =>
          subst sameId
          obtain rfl : first = other := Option.some.inj (isFirst.symm.trans foundOther)
          exact .snoc (follows.lawful isFirst) (by rw [cycle, source]) takes
        · rw [List.append_nil]
          exact follows.lawful foundOther
      machines := by
        intro id
        rw [begun.machines, getElem?_settleAt, follows.machines, Option.map_map, same,
          transitionsOf_append]
        congr 1
        funext other
        rw [Function.comp_apply]
        split
        · rw [standing_append]
        · rw [List.append_nil]
      pending := by
        rw [same, List.filter_append, List.map_append]
        refine pending.trans (List.perm_append_comm.trans (follows.pending.append (.of_eq ?_)))
        split
        · next due => rw [List.filter_cons_of_neg (by simpa using due)]; rfl
        · next late => rw [List.filter_cons_of_pos (by simpa using late)]; rfl
      order := by
        refine List.pairwise_append.mpr ⟨follows.order, t.pairwise_crossings _, ?_⟩
        intro earlier isEarlier later isLater
        refine (follows.traced earlier isEarlier).trans ?_
        rw [← cycle]
        rcases Transition.eq_of_mem_crossings isLater with rfl | ⟨-, rfl⟩
        · exact Nat.le_refl _
        · exact Nat.le_add_right _ _
      traced := by
        intro crossing member
        rw [same]
        rcases List.mem_append.mp member with earlier | isNew
        · exact follows.traced crossing earlier
        · rcases Transition.eq_of_mem_crossings isNew with rfl | ⟨due, rfl⟩
          · exact Nat.le_of_eq cycle
          · exact due
      crossings := by
        intro id
        rw [List.filter_append, follows.crossings, filter_crossings, transitionsOf_append, same,
          List.flatMap_append]
        split
        · rw [List.flatMap_singleton]
        · rfl
      heard := by
        rw [begun.journal, follows.heard, follows.announcements_eq, List.flatMap_append,
          List.append_assoc] }

/-! ### Advances -/

theorem attended (follows : Follows journal initial log trace m) (fresh : Fresh initial) :
    ∀ entry ∈ m.clock.queue.selected Event.isCompletion, Attended m.stateMachines entry.event := by
  intro entry member
  obtain ⟨t, isOpen, rfl⟩ := List.mem_map.mp (follows.pending.subset member)
  obtain ⟨automaton, found⟩ := follows.known t (List.mem_of_mem_filter isOpen)
  have owned := fresh.owned automaton (Array.mem_of_getElem? found)
  have foundLater := follows.machines t.machine
  rw [found] at foundLater
  exact ⟨t.machine, t.source, t.target, _, rfl, foundLater, owned⟩

theorem transitionsOf_past (follows : Follows journal initial log trace m) (id : Nat) :
    ∀ t ∈ transitionsOf id log, t.cycle ≤ m.cycles :=
  fun t member => follows.past t (List.mem_of_mem_filter member)

/-- There are no transitions of a state machine that does not exist. -/
theorem transitionsOf_unknown (follows : Follows journal initial log trace m) {id : Nat}
    (unknown : initial.stateMachines[id]? = none) : transitionsOf id log = [] := by
  rw [transitionsOf, List.filter_eq_nil_iff]
  intro t member same
  obtain ⟨automaton, found⟩ := follows.known t member
  rw [of_decide_eq_true same, unknown] at found
  cases found

/-- The settlings up to a later cycle are those of the open transitions that are due by then. -/
theorem settlings_perm (follows : Follows journal initial log trace m) (later : Nat) :
    (m.settlings later).Perm
      ((log.filter fun t => m.cycles < t.due && t.due ≤ later).map Transition.settling) := by
  have perm := (follows.pending.filter fun entry => entry.time ≤ later).filterMap settling?
  rw [List.filter_map, List.filterMap_map, List.filter_filter] at perm
  have settles : settling? ∘ Transition.completion = some ∘ Transition.settling := rfl
  rw [settles, List.filterMap_eq_map] at perm
  refine perm.trans (.of_eq (congrArg (List.map _) (List.filter_congr fun t _ => ?_)))
  exact Bool.and_comm _ _

/-- What is queued settles after the cycle of the machine. -/
theorem window_of_settling (follows : Follows journal initial log trace m) {later : Nat}
    {settling : Crossing} (member : settling ∈ m.settlings later) :
    m.cycles < settling.cycle ∧ settling.cycle ≤ later := by
  obtain ⟨t, isOpen, rfl⟩ := List.mem_map.mp ((follows.settlings_perm later).subset member)
  have window := Bool.and_eq_true_iff.mp (List.mem_filter.mp isOpen).2
  exact ⟨of_decide_eq_true window.1, of_decide_eq_true window.2⟩

/-- Of each state machine at most one transition settles, so the order is certain. -/
theorem settlings_of (follows : Follows journal initial log trace m) (later id : Nat) :
    ((m.settlings later).filter fun crossing => crossing.machine = id) =
      ((transitionsOf id log).filter fun t => m.cycles < t.due && t.due ≤ later).map
        Transition.settling := by
  have perm := (follows.settlings_perm later).filter fun crossing => crossing.machine = id
  rw [List.filter_map, List.filter_filter] at perm
  have swap : (log.filter fun t =>
      ((fun crossing : Crossing => decide (crossing.machine = id)) ∘ Transition.settling) t &&
        (m.cycles < t.due && t.due ≤ later)) =
      (transitionsOf id log).filter fun t => m.cycles < t.due && t.due ≤ later := by
    rw [transitionsOf, List.filter_filter]
    exact List.filter_congr fun _ _ => Bool.and_comm _ _
  rw [swap] at perm
  have few : (transitionsOf id log).filter (fun t => m.cycles < t.due && t.due ≤ later) = [] ∨
      ∃ t, (transitionsOf id log).filter (fun t => m.cycles < t.due && t.due ≤ later) = [t] := by
    rcases found : initial.stateMachines[id]? with _ | automaton
    · rw [follows.transitionsOf_unknown found]
      exact .inl rfl
    · exact (follows.lawful found).filter_eq_nil_or_singleton (follows.transitionsOf_past id)
        fun t window => of_decide_eq_true (Bool.and_eq_true_iff.mp window).1
  rcases few with none | ⟨t, one⟩
  · rw [none] at perm ⊢
    exact List.perm_nil.mp perm
  · rw [one] at perm ⊢
    exact List.perm_singleton.mp perm

theorem advanced (follows : Follows journal initial log trace m) (listening : Listening env journal)
    (fresh : Fresh initial) {cycles : Nat} (caughtUp : (advance env cycles m).2.CaughtUp) :
    Follows journal initial log (trace ++ m.settlings (advance env cycles m).2.cycles)
      (advance env cycles m).2 := by
  obtain ⟨later, tidy, crossed, remaining⟩ := (firing_completions listening).advance cycles
    follows.tidy follows.spent (follows.attended fresh) caughtUp
  rw [← settlings] at crossed
  generalize (advance env cycles m).2 = next at caughtUp later tidy crossed remaining ⊢
  have after : m.cycles ≤ next.cycles := by omega
  exact
    { tidy
      spent := caughtUp.budget
      known := follows.known
      past := fun t member => (follows.past t member).trans after
      lawful := follows.lawful
      machines := by
        intro id
        rw [crossed.machines, getElem?_settleAll, follows.settlings_of, follows.machines,
          Option.map_map, List.getLast?_map, Option.map_map]
        rcases found : initial.stateMachines[id]? with _ | automaton
        · rfl
        · rw [Option.map_some, Option.map_some, (follows.lawful found).standing_later
            (follows.transitionsOf_past id) after]
          rfl
      pending := by
        rw [remaining]
        refine (follows.pending.filter _).trans (.of_eq ?_)
        rw [List.filter_map, List.filter_filter]
        refine congrArg (List.map _) (List.filter_congr fun t _ => ?_)
        have due : t.completion.time = t.due := rfl
        rw [Function.comp_apply, due, ← Bool.decide_and, decide_eq_decide]
        exact and_iff_left_of_imp after.trans_lt
      order := by
        refine List.pairwise_append.mpr ⟨follows.order, settlings_sorted m _, ?_⟩
        intro earlier isEarlier settling isSettling
        exact (follows.traced earlier isEarlier).trans (follows.window_of_settling isSettling).1.le
      traced := by
        intro crossing member
        rcases List.mem_append.mp member with earlier | isSettling
        · exact (follows.traced crossing earlier).trans after
        · exact (follows.window_of_settling isSettling).2
      crossings := by
        intro id
        rw [List.filter_append, follows.crossings, follows.settlings_of]
        rcases found : initial.stateMachines[id]? with _ | automaton
        · rw [follows.transitionsOf_unknown found]
          rfl
        · exact ((follows.lawful found).crossings_later (follows.transitionsOf_past id) after).symm
      heard := by
        rw [crossed.journal, follows.heard, follows.announcements_eq, List.flatMap_append,
          List.append_assoc] }

/-! ### What is queued -/

/-- The completions queued for a state machine are its open transitions. -/
theorem countMatching_eq (follows : Follows journal initial log trace m) (id : Nat) :
    m.clock.queue.countMatching (Event.completes id) =
      ((transitionsOf id log).filter fun t => m.cycles < t.due).length := by
  rw [DeltaQueue.countMatching_eq_selected (fun _ => Event.isCompletion_of_completes),
    follows.pending.countP_eq, List.countP_map,
    List.countP_filter, transitionsOf, List.filter_filter, ← List.countP_eq_length_filter]
  refine List.countP_congr fun t _ => ?_
  rw [Bool.and_comm]
  rfl

end Follows

theorem Course.follows (listening : Listening env journal) (fresh : Fresh initial)
    (course : Course env journal initial log m) :
    ∃ trace, Follows journal initial log trace m := by
  induction course with
  | start => exact ⟨[], .fresh fresh⟩
  | @accepted log m id time target automaton _ found takes accepts inductionHypothesis =>
    obtain ⟨trace, follows⟩ := inductionHypothesis
    have allowed := (requestTransition_eq_ok_iff env target found).mp accepts
    rw [requestTransition_eq_begin env found
      ((accept_eq_ok_iff automaton target time).mpr ⟨allowed.1, allowed.2.1, takes⟩)]
    cases time with
    | zero => exact ⟨_, follows.begun found rfl takes rfl (begun_zero listening found)⟩
    | succ time => exact ⟨_, follows.begun found rfl takes rfl (begun_succ listening found time)⟩
  | refused _ refuses inductionHypothesis =>
    rwa [requestTransition_refused env refuses]
  | advanced cycles _ caughtUp inductionHypothesis =>
    obtain ⟨trace, follows⟩ := inductionHypothesis
    exact ⟨_, follows.advanced listening fresh caughtUp⟩
  | aside _ unheard inductionHypothesis =>
    obtain ⟨trace, follows⟩ := inductionHypothesis
    exact ⟨trace, follows.aside unheard⟩

/-- State machines follow their tables of times, whatever is requested and however time passes.

The accepted transitions of each lead along its table, and it stands where they lead: between two
states until the last of them is due, and in its target from then on. It has one completion queued
in the first case and none in the second. A request is accepted exactly from a settled state, along
the table; a refused one changes nothing. The probes have been called once for every transition
that began and once for every one that settled, each time in their order and in that very cycle. -/
theorem state_machines_follow_their_times (listening : Listening env journal)
    (fresh : Fresh initial) (course : Course env journal initial log m) :
    (∃ trace : List Crossing,
      trace.Pairwise (fun earlier later => earlier.cycle ≤ later.cycle) ∧
      (∀ id, (trace.filter fun crossing => crossing.machine = id) =
        (transitionsOf id log).flatMap (Transition.crossings m.cycles)) ∧
      journal m.world = journal initial.world ++
        trace.flatMap (Crossing.announcements initial.stateMachines)) ∧
    ∀ {id : Nat} {first : StateMachine}, initial.stateMachines[id]? = some first →
      ∃ automaton : StateMachine, m.stateMachines[id]? = some automaton ∧
        automaton =
          { first with current := standing first.start m.cycles (transitionsOf id log) } ∧
        Lawful first (transitionsOf id log) ∧
        m.clock.queue.countMatching (Event.completes id) =
          (if automaton.current = inTransition then 1 else 0) ∧
        (∀ target, ((requestTransition env id target).run m).1 = .ok () ↔
          automaton.current ≠ inTransition ∧ automaton.hasState target = true ∧
            (automaton.timeBetween automaton.current target).isSome = true) ∧
        ∀ target fault, ((requestTransition env id target).run m).1 = .error fault →
          ((requestTransition env id target).run m).2 = m := by
  obtain ⟨trace, follows⟩ := course.follows listening fresh
  refine ⟨⟨trace, follows.order, follows.crossings, follows.heard⟩, fun {id first} found => ?_⟩
  have foundLater := follows.machines id
  rw [found] at foundLater
  have start : first.start ≠ inTransition := by
    have range := fresh.range first (Array.mem_of_getElem? found)
    simp only [StateMachine.hasState, decide_eq_true_eq] at range
    simp only [inTransition]
    omega
  refine ⟨_, foundLater, rfl, follows.lawful found, ?_,
    fun target => requestTransition_eq_ok_iff env target foundLater,
    fun target fault refuses => requestTransition_refused env refuses⟩
  rw [follows.countMatching_eq]
  exact (follows.lawful found).length_open (follows.transitionsOf_past id) start

/-! ### Probes that keep to the journal, and probes that do not -/

/-- Outside objects of which the probes do nothing but write the journal. -/
def recorder : Environment (List Announcement) where
  note _ world := world
  readOutside _ _ _ blank world := (blank, world)
  writeOutside _ _ _ _ world := world
  notify handle hook := do
    if hook.isTransition then
      modify fun m => { m with world := m.world ++ [⟨handle, hook, m.cycles⟩] }
  readDevice _ := return 0
  writeDevice _ _ := return
  readDeviceBit _ _ := return false
  writeDeviceBit _ _ _ := return
  patience := 4

theorem listening_recorder : Listening recorder id where
  note _ _ := rfl
  callback handle hook other := by
    simp only [recorder, other]
    exact .pure _
  probe handle hook m transition := by
    simp only [recorder, transition]
    exact ⟨.of_eq rfl rfl, rfl⟩

/-- A state machine of two states, with the time between them and a probe. -/
def switch (time probe : Nat) : StateMachine :=
  (StateMachine.new "switch" ["off", "on"] 0 (.uniform 2 time)).insertProbe ⟨probe⟩

def switches (automata : Array StateMachine) : Machine (List Announcement) :=
  { new smallPart ⟨.known 0, false, false⟩ [] with stateMachines := automata }

/-- The second machine settles while the first is still between two states and refuses a request. -/
theorem state_machines_follow_their_times_interleaved :
    let initial := switches #[switch 10 0, switch 4 1]
    let begun := ((requestTransition recorder 0 1).run initial).2
    let later := (advance recorder 3 begun).2
    let both := ((requestTransition recorder 1 1).run later).2
    let last := (advance recorder 4 both).2
    let log : List Transition := [⟨0, 0, 1, 10, 0⟩, ⟨1, 0, 1, 4, 3⟩]
    Fresh initial ∧ Course recorder id initial log last ∧
      last.clock.queue.countMatching (Event.completes 0) = 1 ∧
      last.clock.queue.countMatching (Event.completes 1) = 0 ∧
      ((requestTransition recorder 0 0).run last).1 ≠ .ok () := by
  intro initial begun later both last log
  have fresh : Fresh initial :=
    ⟨trivial, rfl, by decide +kernel, by decide +kernel, by decide +kernel, by decide +kernel⟩
  have first : Course recorder id initial [⟨0, 0, 1, 10, 0⟩] begun :=
    .accepted .start (rfl : initial.stateMachines[0]? = some (switch 10 0)) (by decide +kernel)
      (by decide +kernel)
  have waited : Course recorder id initial [⟨0, 0, 1, 10, 0⟩] later :=
    .advanced 3 first (by rw [CaughtUp]; decide +kernel)
  have still : later.stateMachines[1]? = some (switch 4 1) := by decide +kernel
  have takes : (switch 4 1).timeBetween (switch 4 1).current 1 = some 4 := by decide +kernel
  have second := Course.accepted waited still takes (by decide +kernel)
  have cycle : later.cycles = 3 := by decide +kernel
  rw [cycle] at second
  have course : Course recorder id initial log last :=
    .advanced 4 second (by rw [CaughtUp]; decide +kernel)
  obtain ⟨-, follow⟩ := state_machines_follow_their_times listening_recorder fresh course
  obtain ⟨slow, foundSlow, slowEq, -, slowQueued, slowAccepts, -⟩ :=
    follow (rfl : initial.stateMachines[0]? = some (switch 10 0))
  obtain ⟨fast, foundFast, fastEq, -, fastQueued, -⟩ :=
    follow (rfl : initial.stateMachines[1]? = some (switch 4 1))
  have moving : slow.current = inTransition := by rw [slowEq]; decide +kernel
  have settled : fast.current ≠ inTransition := by rw [fastEq]; decide +kernel
  exact ⟨fresh, course, slowQueued.trans (if_pos moving), fastQueued.trans (if_neg settled),
    fun accepted => ((slowAccepts 0).mp accepted).1 moving⟩

/-- The first probe spends five cycles whenever a transition has settled. -/
def spender : Environment (List Announcement) :=
  { recorder with
    notify := fun handle hook => do
      recorder.notify handle hook
      if handle = ⟨0⟩ ∧ hook = .afterTransition 0 1 then
        advance recorder 5 }

/-- The first probe removes the second when a transition begins. -/
def remover : Environment (List Announcement) :=
  { recorder with
    notify := fun handle hook => do
      recorder.notify handle hook
      if handle = ⟨0⟩ ∧ hook = .beforeTransition 0 1 then
        modify fun m =>
          { m with stateMachines := m.stateMachines.modify 0 fun a => (a.removeProbe ⟨1⟩).1 } }

/-- Probes that let time pass or change the lists of probes are beyond the theorem, although they
request nothing. Of two transitions that were accepted in cycle 0 and take ten cycles, the second
settles in cycle 105; and a probe that was called before a transition is not called after it. -/
theorem probes_disturb_state_machines :
    let first := (requestTransition spender 0 1).run (switches #[switch 10 0, switch 10 1])
    let second := (requestTransition spender 1 1).run first.2
    let begun := (requestTransition remover 0 1).run (switches #[(switch 10 0).insertProbe ⟨1⟩])
    (first.1 = .ok () ∧ second.1 = .ok () ∧ second.2.cycles = 0 ∧
      (advance spender 100 second.2).2.world =
        [⟨⟨0⟩, .beforeTransition 0 1, 0⟩, ⟨⟨1⟩, .beforeTransition 0 1, 0⟩,
          ⟨⟨0⟩, .afterTransition 0 1, 10⟩, ⟨⟨1⟩, .afterTransition 0 1, 105⟩]) ∧
      begun.1 = .ok () ∧
        (advance remover 100 begun.2).2.world =
          [⟨⟨0⟩, .beforeTransition 0 1, 0⟩, ⟨⟨1⟩, .beforeTransition 0 1, 0⟩,
            ⟨⟨0⟩, .afterTransition 0 1, 10⟩] := by
  decide +kernel

end Avr.Machine

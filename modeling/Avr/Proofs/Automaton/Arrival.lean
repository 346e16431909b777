import Avr.Proofs.Automaton.Bystander

/-!
Contract: what requests and deliveries do to state machines.

Owns:
- transitions with the time they take, and their crossings: that they begin, and that they settle;
- the callbacks of a crossing;
- the effect of a request, accepted or refused;
- the effect of a delivery: completions that are due settle in order, each in its own cycle.
-/

namespace Avr

open Avr.Automaton Avr.Time

namespace Automaton

/-- An accepted transition. -/
structure Transition where
  machine : Nat
  source : Int
  target : Int
  time : Nat
  /-- The cycle in which it was accepted. -/
  cycle : Nat
deriving DecidableEq, Repr

/-- A transition that begins, or one that settles. -/
structure Crossing where
  machine : Nat
  source : Int
  target : Int
  settles : Bool
  cycle : Nat
deriving DecidableEq, Repr

namespace Transition

/-- The cycle in which the transition settles. -/
def due (t : Transition) : Nat :=
  t.cycle + t.time

/-- The completion that is queued for it. -/
def completion (t : Transition) : Entry Event :=
  ⟨t.due, .arrival t.machine t.source t.target⟩

def beginning (t : Transition) : Crossing :=
  ⟨t.machine, t.source, t.target, false, t.cycle⟩

def settling (t : Transition) : Crossing :=
  ⟨t.machine, t.source, t.target, true, t.due⟩

/-- What has come of the transition up to a cycle. -/
def crossings (now : Nat) (t : Transition) : List Crossing :=
  t.beginning :: if t.due ≤ now then [t.settling] else []

theorem eq_of_mem_crossings {t : Transition} {now : Nat} {crossing : Crossing}
    (member : crossing ∈ t.crossings now) :
    crossing = t.beginning ∨ t.due ≤ now ∧ crossing = t.settling := by
  rw [crossings, List.mem_cons] at member
  refine member.imp_right fun settles => ?_
  split at settles
  · next due => exact ⟨due, List.mem_singleton.mp settles⟩
  · cases settles

theorem pairwise_crossings (t : Transition) (now : Nat) :
    (t.crossings now).Pairwise fun earlier later => earlier.cycle ≤ later.cycle := by
  refine List.pairwise_cons.mpr ⟨fun later member => ?_, ?_⟩
  · split at member
    · rw [List.mem_singleton.mp member]
      exact Nat.le_add_right _ _
    · cases member
  · split
    · exact List.pairwise_singleton _ _
    · exact .nil

end Transition

namespace Crossing

def hook (crossing : Crossing) : Hook :=
  if crossing.settles then .afterTransition crossing.source crossing.target
  else .beforeTransition crossing.source crossing.target

/-- The callbacks of a crossing: the probes of its machine, then those of the source, then those of
the target. -/
def announcements (machines : Array StateMachine) (crossing : Crossing) :
    List Machine.Announcement :=
  match machines[crossing.machine]? with
  | none => []
  | some automaton =>
    (automaton.probesFor crossing.source crossing.target).map
      (Machine.Announcement.mk · crossing.hook crossing.cycle)

end Crossing

/-- The settling that a queued event brings. -/
def settling? (entry : Entry Event) : Option Crossing :=
  match entry.event with
  | .arrival machine source target => some ⟨machine, source, target, true, entry.time⟩
  | _ => none

/-- Give one state machine another state. -/
def settleAt (machines : Array StateMachine) (id : Nat) (state : Int) : Array StateMachine :=
  machines.modify id fun automaton => { automaton with current := state }

/-- The state machines after settlings, one after the other. -/
def settleAll (machines : Array StateMachine) (crossings : List Crossing) : Array StateMachine :=
  crossings.foldl (fun machines crossing => settleAt machines crossing.machine crossing.target)
    machines

theorem getElem?_settleAt (machines : Array StateMachine) (id other : Nat) (state : Int) :
    (settleAt machines id state)[other]? =
      machines[other]?.map fun automaton =>
        { automaton with current := if id = other then state else automaton.current } := by
  rw [settleAt, Array.getElem?_modify]
  split
  · rfl
  · exact Option.map_id'.symm

theorem getElem?_settleAll (machines : Array StateMachine) (crossings : List Crossing) (id : Nat) :
    (settleAll machines crossings)[id]? =
      machines[id]?.map fun automaton =>
        { automaton with
          current := ((crossings.filter fun crossing => crossing.machine = id).getLast?.map
            Crossing.target).getD automaton.current } := by
  induction crossings generalizing machines with
  | nil => exact Option.map_id'.symm
  | cons first rest inductionHypothesis =>
      have settled : settleAll machines (first :: rest) =
          settleAll (settleAt machines first.machine first.target) rest := rfl
      rw [settled, inductionHypothesis, getElem?_settleAt, Option.map_map]
      congr 1
      funext automaton
      simp only [Function.comp_apply, List.filter_cons, decide_eq_true_eq]
      split
      · rw [List.getLast?_cons]
        cases (rest.filter fun crossing => crossing.machine = id).getLast? <;> rfl
      · rfl

/-- States do not matter for who is called. -/
theorem announcements_settleAt (machines : Array StateMachine) (id : Nat) (state : Int) :
    Crossing.announcements (settleAt machines id state) = Crossing.announcements machines := by
  funext crossing
  rw [Crossing.announcements, Crossing.announcements, getElem?_settleAt]
  cases machines[crossing.machine]? <;> rfl

theorem announcements_settleAll (machines : Array StateMachine) (crossings : List Crossing) :
    Crossing.announcements (settleAll machines crossings) = Crossing.announcements machines := by
  induction crossings generalizing machines with
  | nil => rfl
  | cons first rest inductionHypothesis =>
      exact (inductionHypothesis _).trans (announcements_settleAt machines _ _)

end Automaton

namespace Machine

variable {World : Type}

theorem settleIn_stateMachines (m : Machine World) (id : Nat) (state : Int) :
    (m.settleIn id state).stateMachines = settleAt m.stateMachines id state := rfl

/-! ### Requests -/

/-- A refused request changes nothing at all, and the accepted ones are those of the table. -/
theorem accept_eq_ok_iff (automaton : StateMachine) (target : Int) (time : Nat) :
    automaton.accept target = .ok time ↔ automaton.current ≠ inTransition ∧
      automaton.hasState target = true ∧
        automaton.timeBetween automaton.current target = some time := by
  rw [StateMachine.accept]
  split
  · next range =>
    split
    · next moving => simp [moving]
    · next still =>
      cases automaton.timeBetween automaton.current target <;> simp [range, still]
  · next range => simp [range]

theorem requestTransition_refused (env : Environment World) {id : Nat} {target : Int}
    {m : Machine World} {fault : Fault}
    (refuses : ((requestTransition env id target).run m).1 = .error fault) :
    ((requestTransition env id target).run m).2 = m := by
  rw [requestTransition, Attempt.run_bind, Attempt.run_get] at refuses ⊢
  dsimp only at refuses ⊢
  split at refuses
  · cases refuses
  · split at refuses
    · rfl
    · cases refuses

theorem requestTransition_eq_begin (env : Environment World) {id : Nat} {target : Int}
    {m : Machine World} {automaton : StateMachine} (found : m.stateMachines[id]? = some automaton)
    {time : Nat} (accepts : automaton.accept target = .ok time) :
    (requestTransition env id target).run m =
      (.ok (), (beginTransition env id automaton target time m).2) := by
  rw [requestTransition, Attempt.run_bind, Attempt.run_get]
  simp only [found, accepts]
  rfl

theorem requestTransition_eq_ok_iff (env : Environment World) {id : Nat} (target : Int)
    {m : Machine World} {automaton : StateMachine}
    (found : m.stateMachines[id]? = some automaton) :
    ((requestTransition env id target).run m).1 = .ok () ↔ automaton.current ≠ inTransition ∧
      automaton.hasState target = true ∧
        (automaton.timeBetween automaton.current target).isSome = true := by
  rw [Option.isSome_iff_exists, ← exists_and_left, ← exists_and_left]
  simp only [← accept_eq_ok_iff]
  rcases accepts : automaton.accept target with fault | time
  · rw [requestTransition, Attempt.run_bind, Attempt.run_get]
    simp only [found, accepts]
    exact iff_of_false nofun nofun
  · rw [requestTransition_eq_begin env found accepts]
    exact iff_of_true rfl ⟨time, rfl⟩

section

variable {env : Environment World} {journal : World → List Announcement}

/-- What an accepted transition leaves. -/
structure Begun (journal : World → List Announcement) (t : Transition) (m next : Machine World) :
    Prop where
  machines : next.stateMachines = settleAt m.stateMachines t.machine
    (if t.due ≤ m.cycles then t.target else inTransition)
  count : next.clock.queue.count = m.clock.queue.count
  budget : next.clock.queue.budget = m.clock.queue.budget
  queue : DeltaQueue.Tidy m.clock.queue.links → DeltaQueue.Tidy next.clock.queue.links ∧
    (next.clock.queue.selected Event.isCompletion).Perm
      ((if t.due ≤ m.cycles then [] else [t.completion]) ++
        m.clock.queue.selected Event.isCompletion)
  journal : journal next.world = journal m.world ++
    (t.crossings m.cycles).flatMap (Crossing.announcements m.stateMachines)

theorem beginTransition_zero (id : Nat) (automaton : StateMachine) (target : Int)
    (m : Machine World) :
    beginTransition env id automaton target 0 m =
      notifyAll env (automaton.probesFor automaton.current target)
        (.afterTransition automaton.current target)
        ((notifyAll env (automaton.probesFor automaton.current target)
          (.beforeTransition automaton.current target)
          (note env (.transition automaton.name automaton.current target 0) m).2).2.settleIn id
            target) := rfl

theorem beginTransition_succ (id : Nat) (automaton : StateMachine) (target : Int) (time : Nat)
    (m : Machine World) :
    beginTransition env id automaton target (time + 1) m =
      schedule env (.arrival id automaton.current target) (time + 1)
        (notifyAll env (automaton.probesFor automaton.current target)
          (.beforeTransition automaton.current target)
          ((note env (.transition automaton.name automaton.current target (time + 1)) m).2.settleIn
            id inTransition)).2 := rfl

/-- The callbacks of a crossing of a state machine that exists. -/
theorem announcements_of_found {machines : Array StateMachine} {crossing : Crossing}
    {automaton : StateMachine} (found : machines[crossing.machine]? = some automaton) :
    crossing.announcements machines =
      (automaton.probesFor crossing.source crossing.target).map
        (Announcement.mk · crossing.hook crossing.cycle) := by
  rw [Crossing.announcements, found]

/-- A transition that takes no time settles before the request returns. -/
theorem begun_zero (listening : Listening env journal) {id : Nat} {target : Int}
    {m : Machine World} {automaton : StateMachine}
    (found : m.stateMachines[id]? = some automaton) :
    Begun journal ⟨id, automaton.current, target, 0, m.cycles⟩ m
      (beginTransition env id automaton target 0 m).2 := by
  have noted := (listening.unheard_note
    (.transition automaton.name automaton.current target 0)).related m
  rw [beginTransition_zero]
  generalize (note env _ m).2 = first at noted ⊢
  obtain ⟨before, heardBefore⟩ := listening.announce
    (automaton.probesFor automaton.current target)
    (.beforeTransition automaton.current target) rfl first
  generalize (notifyAll env _ (.beforeTransition _ _) first).2 = second at before heardBefore ⊢
  obtain ⟨after, heardAfter⟩ := listening.announce
    (automaton.probesFor automaton.current target)
    (.afterTransition automaton.current target) rfl (second.settleIn id target)
  generalize (notifyAll env _ (.afterTransition _ _) (second.settleIn id target)).2 = last
    at after heardAfter ⊢
  have sameFirst : first.cycles = m.cycles := noted.count
  have sameSecond : (second.settleIn id target).cycles = m.cycles := before.count.trans sameFirst
  have now : (Transition.mk id automaton.current target 0 m.cycles).due ≤ m.cycles :=
    Nat.le_refl _
  exact
    { machines := by
        rw [after.machines, settleIn_stateMachines, before.machines, noted.machines]
        exact congrArg _ (if_pos now).symm
      count := after.count.trans (before.count.trans noted.count)
      budget := after.budget.trans (before.budget.trans noted.budget)
      queue := fun tidy => by
        obtain ⟨firstTidy, firstSame⟩ := noted.queue tidy
        obtain ⟨secondTidy, secondSame⟩ := before.queue firstTidy
        obtain ⟨lastTidy, lastSame⟩ := after.queue secondTidy
        refine ⟨lastTidy, ?_⟩
        rw [if_pos now, List.nil_append, lastSame]
        exact .of_eq (secondSame.trans firstSame)
      journal := by
        have settles :
            Transition.crossings m.cycles ⟨id, automaton.current, target, 0, m.cycles⟩ =
              [⟨id, automaton.current, target, false, m.cycles⟩,
                ⟨id, automaton.current, target, true, m.cycles⟩] :=
          congrArg _ (if_pos now)
        have sameJournal : journal (second.settleIn id target).world = journal second.world := rfl
        rw [heardAfter, sameJournal, heardBefore, sameFirst, sameSecond, noted.journal, settles,
          List.flatMap_cons, List.flatMap_singleton, announcements_of_found found,
          announcements_of_found found, List.append_assoc]
        rfl }

/-- A transition that takes time leaves its state machine in transition, with a completion. -/
theorem begun_succ (listening : Listening env journal) {id : Nat} {target : Int}
    {m : Machine World} {automaton : StateMachine}
    (found : m.stateMachines[id]? = some automaton) (time : Nat) :
    Begun journal ⟨id, automaton.current, target, time + 1, m.cycles⟩ m
      (beginTransition env id automaton target (time + 1) m).2 := by
  have noted := (listening.unheard_note
    (.transition automaton.name automaton.current target (time + 1))).related m
  rw [beginTransition_succ]
  generalize (note env _ m).2 = first at noted ⊢
  obtain ⟨before, heardBefore⟩ := listening.announce
    (automaton.probesFor automaton.current target)
    (.beforeTransition automaton.current target) rfl (first.settleIn id inTransition)
  generalize (notifyAll env _ (.beforeTransition _ _) (first.settleIn id inTransition)).2 = second
    at before heardBefore ⊢
  have sameFirst : (first.settleIn id inTransition).cycles = m.cycles := noted.count
  have sameSecond : second.clock.queue.count = m.cycles := before.count.trans noted.count
  have notNow : ¬ (Transition.mk id automaton.current target (time + 1) m.cycles).due ≤ m.cycles :=
    Nat.not_le.mpr (Nat.lt_add_of_pos_right (Nat.succ_pos time))
  exact
    { machines := by
        change second.stateMachines = _
        rw [before.machines, settleIn_stateMachines, noted.machines]
        exact congrArg _ (if_neg notNow).symm
      count := before.count.trans noted.count
      budget := before.budget.trans noted.budget
      queue := fun tidy => by
        obtain ⟨firstTidy, firstSame⟩ := noted.queue tidy
        obtain ⟨secondTidy, secondSame⟩ := before.queue firstTidy
        refine ⟨DeltaQueue.tidy_insert _ _ secondTidy, ?_⟩
        have completion : (Event.arrival id automaton.current target).isCompletion = true := rfl
        have added := DeltaQueue.selected_add secondTidy _ completion (time + 1)
        rw [secondSame, sameSecond] at added
        rw [if_neg notNow, ← firstSame]
        exact added
      journal := by
        have starts :
            Transition.crossings m.cycles ⟨id, automaton.current, target, time + 1, m.cycles⟩ =
              [⟨id, automaton.current, target, false, m.cycles⟩] :=
          congrArg _ (if_neg notNow)
        have sameJournal : journal (first.settleIn id inTransition).world =
            journal first.world := rfl
        have sameWorld :
            (schedule env (.arrival id automaton.current target) (time + 1) second).2.world =
              env.note (.scheduled (time + 1) (second.cycles + (time + 1))) second.world := rfl
        rw [sameWorld, listening.note, heardBefore, sameJournal, sameFirst, noted.journal, starts,
          List.flatMap_singleton, announcements_of_found found]
        rfl }

/-! ### Deliveries -/

/-- The event completes a transition of a state machine that exists and is owned. -/
def Attended (machines : Array StateMachine) (event : Event) : Prop :=
  ∃ id source target automaton, event = .arrival id source target ∧
    machines[id]? = some automaton ∧ 0 < automaton.owners

theorem Attended.settleAll {machines : Array StateMachine} {event : Event}
    (attended : Attended machines event) (crossings : List Crossing) :
    Attended (settleAll machines crossings) event := by
  obtain ⟨id, source, target, automaton, rfl, found, owned⟩ := attended
  have after := getElem?_settleAll machines crossings id
  rw [found] at after
  exact ⟨id, source, target, _, rfl, after, owned⟩

/-- Crossings have happened in their order, and nothing else to the state machines. -/
structure Crossed (journal : World → List Announcement) (crossings : List Crossing)
    (m next : Machine World) : Prop where
  machines : next.stateMachines = Automaton.settleAll m.stateMachines crossings
  journal : journal next.world =
    journal m.world ++ crossings.flatMap (Crossing.announcements m.stateMachines)

theorem Crossed.append {earlier later : List Crossing} {m middle next : Machine World}
    (first : Crossed journal earlier m middle) (rest : Crossed journal later middle next) :
    Crossed journal (earlier ++ later) m next where
  machines := by
    rw [rest.machines, first.machines, Automaton.settleAll, Automaton.settleAll,
      Automaton.settleAll, List.foldl_append]
  journal := by
    rw [rest.journal, first.journal, first.machines, announcements_settleAll,
      List.flatMap_append, List.append_assoc]

/-- Owning a state machine meanwhile leaves no trace. -/
theorem dropOwner_addOwner (m next : Machine World) (id : Nat) (target : Int)
    (same : next.stateMachines = ((m.addOwner id).settleIn id target).stateMachines) :
    (next.dropOwner id).stateMachines = settleAt m.stateMachines id target := by
  have drops : (next.dropOwner id).stateMachines = next.stateMachines.modify id
      fun automaton => { automaton with owners := automaton.owners - 1 } := rfl
  have adds : ((m.addOwner id).settleIn id target).stateMachines =
      settleAt (m.stateMachines.modify id
        fun automaton => { automaton with owners := automaton.owners + 1 }) id target := rfl
  refine Array.ext_getElem? fun other => ?_
  rw [drops, same, adds, Array.getElem?_modify, getElem?_settleAt, getElem?_settleAt,
    Array.getElem?_modify]
  split
  · rw [Option.map_map, Option.map_map]
    rfl
  · rfl

theorem completeTransition_eq (env : Environment World) {id : Nat} (source target : Int)
    {m : Machine World} {automaton : StateMachine}
    (found : m.stateMachines[id]? = some automaton) (owned : 0 < automaton.owners) :
    (completeTransition env id source target m).2 =
      (notifyAll env (automaton.probesFor source target) (.afterTransition source target)
        ((m.addOwner id).settleIn id target)).2.dropOwner id := by
  have opened : completeTransition env id source target m =
      ((match m.stateMachines[id]? with
        | none => return
        | some automaton => do
          if 0 < automaton.owners then
            modify fun m => (m.addOwner id).settleIn id target
            notifyAll env (automaton.probesFor source target) (.afterTransition source target)
            modify fun m => m.dropOwner id : Action World Unit)) m := rfl
  rw [opened, found]
  dsimp only
  rw [if_pos owned]
  rfl

/-- The settling of one transition. -/
theorem completeTransition_crosses (listening : Listening env journal) {id : Nat}
    {source target : Int} {m : Machine World} {automaton : StateMachine}
    (found : m.stateMachines[id]? = some automaton) (owned : 0 < automaton.owners) :
    Crossed journal [⟨id, source, target, true, m.cycles⟩] m
        (completeTransition env id source target m).2 ∧
      Momentary Event.isCompletion m
        (completeTransition env id source target m).2 := by
  obtain ⟨aside, heard⟩ := listening.announce (automaton.probesFor source target)
    (.afterTransition source target) rfl ((m.addOwner id).settleIn id target)
  rw [completeTransition_eq env source target found owned]
  generalize (notifyAll env _ (.afterTransition source target)
    ((m.addOwner id).settleIn id target)).2 = last at aside heard ⊢
  refine ⟨⟨dropOwner_addOwner m last id target aside.machines, ?_⟩, aside.count, aside.budget,
    aside.queue⟩
  have sameJournal : journal (last.dropOwner id).world = journal last.world := rfl
  rw [sameJournal, heard, List.flatMap_singleton, announcements_of_found found]
  rfl

theorem Unheard.crossed {m next : Machine World} (unheard : Unheard journal m next) :
    Crossed journal [] m next :=
  ⟨unheard.machines, unheard.journal.trans (List.append_nil _).symm⟩

theorem fire_crosses (listening : Listening env journal) {m : Machine World} {event : Event}
    (attended : event.isCompletion = true → Attended m.stateMachines event) :
    Crossed journal
        (([⟨m.cycles, event⟩].filter fun entry => entry.event.isCompletion).filterMap settling?)
        m (fire env event m).2 ∧
      Momentary Event.isCompletion m (fire env event m).2 := by
  by_cases completion : event.isCompletion = true
  · obtain ⟨id, source, target, automaton, rfl, found, owned⟩ := attended completion
    exact completeTransition_crosses listening found owned
  · rw [Bool.not_eq_true] at completion
    have unheard := (listening.unheard_fire completion).related m
    rw [List.filter_cons_of_neg (by simp [completion])]
    exact ⟨unheard.crossed, unheard.toMomentary⟩

/-- Completions settle transitions when they fire. -/
theorem firing_completions (listening : Listening env journal) :
    Firing env Event.isCompletion (fun m => Attended m.stateMachines)
      fun entries => Crossed journal (entries.filterMap settling?) where
  queue _ _ := ⟨rfl, (List.append_nil _).symm⟩
  append first rest := by
    rw [List.filterMap_append]
    exact first.append rest
  ready fired attended := by
    rw [fired.machines]
    exact attended.settleAll _
  fire := fire_crosses listening

end

end Machine

end Avr

import Avr.Proofs.Machine.Passing
import Avr.Proofs.Machine.Respect

/-!
Contract: what goes on beside the state machines of a machine.

Owns:
- completions: the queued events that complete a transition;
- steps that leave the state machines, their completions and the time alone;
- callbacks that are such steps, with a journal of the callbacks at transitions;
- every background operation that completes no transition as such a step.

A callback may do anything else: post interrupts, queue events of its own, or write memory.
-/

namespace Avr

/-- Hooks at which probes of state machines are called. -/
def Hook.isTransition : Hook → Bool
  | .beforeTransition .. | .afterTransition .. => true
  | _ => false

namespace Time

/-- The event completes a transition of the given state machine, once or periodically. -/
def Event.completes (id : Nat) : Event → Bool
  | .arrival machine _ _ => machine = id
  | .periodic _ event _ => event.completes id
  | _ => false

/-- The event completes a transition of some state machine. -/
def Event.isCompletion : Event → Bool
  | .arrival .. => true
  | .periodic _ event _ => event.isCompletion
  | _ => false

theorem Event.isCompletion_of_completes {id : Nat} {event : Event}
    (completes : event.completes id = true) : event.isCompletion = true := by
  induction event with
  | arrival => rfl
  | periodic _ event _ inductionHypothesis => exact inductionHypothesis completes
  | outside | timeout | spmReset | pageOperation => cases completes

end Time

namespace Machine

open Avr.Time Avr.Interrupt

variable {World : Type}

/-- A callback of a probe at a transition. -/
structure Announcement where
  probe : Handle
  hook : Hook
  cycle : Nat
deriving DecidableEq, Repr

/-- State machines, their completions and the time are left alone. -/
structure Apart (m next : Machine World) : Prop
    extends Momentary Event.isCompletion m next where
  machines : next.stateMachines = m.stateMachines

theorem Apart.trans {m middle next : Machine World} (first : Apart m middle)
    (rest : Apart middle next) : Apart m next :=
  ⟨first.toMomentary.trans rest.toMomentary, rest.machines.trans first.machines⟩

/-- The state machines and the clock are what they were. -/
theorem Apart.of_eq {m next : Machine World} (machines : next.stateMachines = m.stateMachines)
    (clock : next.clock = m.clock) : Apart m next :=
  ⟨.of_eq clock, machines⟩

/-- Apart, and without a callback at a transition. -/
structure Unheard (journal : World → List Announcement) (m next : Machine World) : Prop
    extends Apart m next where
  journal : journal next.world = journal m.world

instance (journal : World → List Announcement) :
    IsPreorder (Machine World) (Unheard journal) where
  refl _ := ⟨.of_eq rfl rfl, rfl⟩
  trans _ _ _ first rest := ⟨first.toApart.trans rest.toApart, rest.journal.trans first.journal⟩

/-- Outside objects that stay apart when they are called, and keep a journal of the callbacks at
transitions. -/
structure Listening (env : Environment World) (journal : World → List Announcement) : Prop where
  note : ∀ notice world, journal (env.note notice world) = journal world
  callback : ∀ handle hook, hook.isTransition = false →
    Action.Respects (Unheard journal) (env.notify handle hook)
  probe : ∀ handle hook (m : Machine World), hook.isTransition = true →
    Apart m (env.notify handle hook m).2 ∧
      journal (env.notify handle hook m).2.world = journal m.world ++ [⟨handle, hook, m.cycles⟩]

namespace Listening

variable {env : Environment World} {journal : World → List Announcement}
  (listening : Listening env journal)
include listening

theorem unheard_note (notice : Notice) :
    Action.Respects (Unheard journal) (Machine.note env notice) :=
  .modify fun m => ⟨.of_eq rfl rfl, listening.note notice m.world⟩

/-- The probes of a transition are called one after the other. -/
theorem announce (handles : HandleList) (hook : Hook) (transition : hook.isTransition = true)
    (m : Machine World) :
    Apart m (notifyAll env handles hook m).2 ∧
      journal (notifyAll env handles hook m).2.world =
        journal m.world ++ handles.map (Announcement.mk · hook m.cycles) := by
  induction handles generalizing m with
  | nil => exact ⟨.of_eq rfl rfl, (List.append_nil _).symm⟩
  | cons handle rest inductionHypothesis =>
      obtain ⟨apart, heard⟩ := listening.probe handle hook m transition
      obtain ⟨restApart, restHeard⟩ := inductionHypothesis (env.notify handle hook m).2
      refine ⟨apart.trans restApart, restHeard.trans ?_⟩
      have sameCycle : (env.notify handle hook m).2.cycles = m.cycles := apart.count
      rw [heard, sameCycle, List.append_assoc]
      rfl

theorem unheard_notifyAll (handles : HandleList) {hook : Hook}
    (other : hook.isTransition = false) :
    Action.Respects (Unheard journal) (notifyAll env handles hook) :=
  .forM (fun handle => listening.callback handle hook other) handles

/-! ### Background operations -/

theorem unheard_schedule {event : Event} (other : event.isCompletion = false) (delay : Nat) :
    Action.Respects (Unheard journal) (schedule env event delay) :=
  .bind .get fun _ => .bind (listening.unheard_note _) fun _ => .modify fun m =>
    ⟨⟨.add other delay m, rfl⟩, rfl⟩

theorem unheard_unschedule {event : Event} (other : event.isCompletion = false) :
    Action.Respects (Unheard journal) (unschedule env event) := by
  refine .bind .get fun _ => .bind (.modify fun m => ⟨⟨.remove other m, rfl⟩, rfl⟩) fun _ => ?_
  split
  · exact .bind (listening.unheard_note _) fun _ => .pure _
  · exact .bind (.pure _) fun _ => .pure _

theorem unheard_timeout : Action.Respects (Unheard journal) (timeout env) :=
  .bind .get fun _ => .bind (listening.unheard_note _) fun _ =>
    .modify fun _ => ⟨.of_eq rfl rfl, rfl⟩

theorem unheard_changeVector {change : Table → Nat → Except Fault Table} {hook : Nat → Hook}
    {vector : Nat} (other : (hook vector).isTransition = false) :
    Attempt.Respects (Unheard journal) (changeVector env change hook vector) := by
  refine .bind (.attempt fun m next changed => ?_) fun _ =>
    .lift (.bind .get fun _ => listening.unheard_notifyAll _ other)
  rcases tables : change m.interrupts.table vector with fault | table
  · rw [tables] at changed
    cases changed
  · rw [tables] at changed
    cases changed
    exact ⟨.of_eq rfl rfl, rfl⟩

theorem unheard_writeSpmControl (value : UInt8) :
    Attempt.Respects (Unheard journal) (writeSpmControl env value) := by
  have rest : Attempt.Respects (Unheard journal)
      (do
        modify fun m => m.modifySpm fun unit => { unit with control := armedValue value }
        setPosted env (← get).part.spmReady (reportsReady (armedValue value)) :
          Attempt World Unit) := by
    refine .bind (.modify fun _ => ⟨.of_eq rfl rfl, rfl⟩) fun _ => .bind .get fun _ => ?_
    rw [setPosted]
    split
    · exact listening.unheard_changeVector rfl
    · exact listening.unheard_changeVector rfl
  unfold writeSpmControl
  split
  · exact .bind (.lift (listening.unheard_unschedule rfl)) fun _ =>
      .bind (.lift (listening.unheard_schedule rfl _)) fun _ => rest
  · exact rest

theorem unheard_settleOperation :
    Action.Respects (Unheard journal) (settleOperation env) := by
  refine .bind .get fun _ => ?_
  split
  · refine .bind ((Attempt.Respects.bind .get fun _ =>
      listening.unheard_writeSpmControl _).run) fun result => ?_
    cases result with
    | ok _ => exact .pure _
    | error fault => exact listening.unheard_note _
  · exact .pure _

theorem unheard_completePage (start size : Nat) (contents : Option (List UInt8)) :
    Action.Respects (Unheard journal) (completePage env start size contents) := by
  refine .bind .get fun m => ?_
  split
  · exact .bind (.modify fun _ => ⟨.of_eq rfl rfl, rfl⟩) fun _ =>
      .bind (listening.unheard_note _) fun _ => listening.unheard_settleOperation
  · exact .bind (listening.unheard_note _) fun _ => listening.unheard_settleOperation

/-- An event that completes no transition stays apart. -/
theorem unheard_fire {event : Event} (other : event.isCompletion = false) :
    Action.Respects (Unheard journal) (fire env event) := by
  induction event with
  | outside handle => exact listening.callback handle .event rfl
  | periodic handle event period inductionHypothesis =>
      exact .bind (listening.unheard_schedule other period) fun _ => inductionHypothesis other
  | timeout handle => exact listening.unheard_timeout
  | spmReset => exact listening.unheard_settleOperation
  | pageOperation start size contents =>
      exact listening.unheard_completePage start size contents
  | arrival machine source target => cases other

end Listening

end Machine

end Avr

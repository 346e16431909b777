import Avr.Machine.Delivery
import Avr.Proofs.Machine.Guest
import Avr.Proofs.Machine.Mirror

/-!
Contract: operations on interrupts, events and self-programming keep two machines in accord.

Owns:
- the single changes and calls of which these operations are made, as what an accord withstands;
- the operations of the interrupts, the self-programming unit and the clock as mirrors of themselves;
- accords that a timeout does not matter to, and that nothing scheduled and nothing of the
  self-programming unit matters to.

Two machines may be given different instruments. Which vectors may be posted or enabled at all is a
parameter: others may be tied to something that the accord keeps.
-/

namespace Avr

/-- Hooks of probes and watches; the others belong to the devices of the machine. -/
def Hook.isInstrument : Hook → Bool
  | .event | .forced _ | .invoked _ => false
  | _ => true

/-- The event is a timeout, once or periodically. -/
def Time.Event.pauses : Time.Event → Bool
  | .timeout _ => true
  | .periodic _ event _ => event.pauses
  | _ => false

namespace Machine

open Avr.Time Avr.Interrupt Avr.Automaton

variable {World : Type}

/-- The operations that post, unpost, enable or disable a vector. -/
inductive VectorChange : (Table → Nat → Except Fault Table) → Prop where
  | post : VectorChange Table.post
  | unpost : VectorChange Table.unpost
  | enable : VectorChange Table.enable
  | disable : VectorChange Table.disable

/-- Machines in accord differ in their instruments only and stay in accord under the single changes
of background operations that have nothing to do with timeouts. `Twin` relates lists of instruments
that may stand for each other, and `Free` holds of the vectors that may change at any time. -/
structure QuietAccord (env : Environment World) (A : Machine World → Machine World → Prop)
    (Twin : HandleList → HandleList → Prop) (Free : Nat → Prop) : Prop where
  akin : ∀ {m n}, A m n → Akin m n
  twin : ∀ {m n}, A m n → ∀ instruments : Machine Unit → HandleList,
    Twin (instruments { m.unmarked with pause := .unsuccessful })
      (instruments { n.unmarked with pause := .unsuccessful })
  note : ∀ {m n} notice, A m n →
    A { m with world := env.note notice m.world } { n with world := env.note notice n.world }
  instruments : ∀ {handles handles'} hook, hook.isInstrument = true → Twin handles handles' →
    Action.Mirrors A (notifyAll env handles hook) (notifyAll env handles' hook)
  enqueue : ∀ {m n} event delay, event.pauses = false → A m n →
    A (m.setQueue (m.clock.queue.add event delay)) (n.setQueue (n.clock.queue.add event delay))
  vector : ∀ {m n change vector}, A m n → VectorChange change → Free vector →
    Concur (fun table table' => A (m.setTable table) (n.setTable table'))
      (change m.interrupts.table vector) (change n.interrupts.table vector)
  load : ∀ {m n} offset values, A m n →
    Concur (fun flash flash' => A { m with flash } { n with flash := flash' })
      (m.flash.load offset values) (n.flash.load offset values)
  settleIn : ∀ {m n} id state, A m n → A (m.settleIn id state) (n.settleIn id state)
  addOwner : ∀ {m n} id, A m n → A (m.addOwner id) (n.addOwner id)
  dropOwner : ∀ {m n} id, A m n → A (m.dropOwner id) (n.dropOwner id)

/-- Machines stay in accord under the changes of timeouts as well. -/
structure Accord (env : Environment World) (A : Machine World → Machine World → Prop)
    (Twin : HandleList → HandleList → Prop) (Free : Nat → Prop) : Prop
    extends QuietAccord env A Twin Free where
  add : ∀ {m n} event delay, A m n →
    A (m.setQueue (m.clock.queue.add event delay)) (n.setQueue (n.clock.queue.add event delay))
  timeout : ∀ {m n}, A m n →
    A { m with halt := m.halt.or (some .timeout) } { n with halt := n.halt.or (some .timeout) }
  enqueue := fun event delay _ => add event delay

/-- Machines stay in accord whatever becomes of their events and of their self-programming units. -/
structure Unconcerned (A : Machine World → Machine World → Prop) : Prop where
  queue : ∀ {m n} queue, A m n → A (m.setQueue queue) (n.setQueue queue)
  spm : ∀ {m n} change, A m n → A (m.modifySpm change) (n.modifySpm change)

namespace QuietAccord

variable {env : Environment World} {A : Machine World → Machine World → Prop}
  {Twin : HandleList → HandleList → Prop} {Free : Nat → Prop}
  (accord : QuietAccord env A Twin Free)
include accord

theorem mirrors_note (notice : Notice) :
    Action.Mirrors A (Machine.note env notice) (Machine.note env notice) :=
  .modify fun _ _ => accord.note notice

/-! ### Events -/

theorem mirrors_enqueue {event : Event} (calm : event.pauses = false) (delay : Nat) :
    Action.Mirrors A (schedule env event delay) (schedule env event delay) := by
  refine .getting fun m n same => ?_
  rw [(accord.akin same).cycles]
  exact .bind (accord.mirrors_note _) fun _ => .modify fun _ _ => accord.enqueue event delay calm

theorem mirrors_unschedule
    (queue : ∀ {m n} queue, A m n → A (m.setQueue queue) (n.setQueue queue)) (event : Event) :
    Action.Mirrors A (unschedule env event) (unschedule env event) := by
  refine .getting fun m n same => ?_
  rw [(accord.akin same).clock]
  refine .bind (.modify fun m n same => ?_) fun _ => ?_
  · rw [(accord.akin same).clock]
    exact queue _ same
  · split
    · exact .bind (accord.mirrors_note _) fun _ => .pure _
    · exact .bind (.pure _) fun _ => .pure _

/-! ### Interrupts -/

theorem mirrors_notifyVector (vector : Nat) {hook : Nat → Hook}
    (instrument : (hook vector).isInstrument = true) :
    Action.Mirrors A (notifyVector env vector hook) (notifyVector env vector hook) :=
  .getting fun _ _ same =>
    accord.instruments _ instrument
      (accord.twin same fun machine => machine.interrupts.probesFor vector)

theorem mirrors_notifyGlobal {hook : Nat → Hook} (instrument : (hook 0).isInstrument = true) :
    Action.Mirrors A (notifyGlobal env hook) (notifyGlobal env hook) :=
  .getting fun _ _ same =>
    accord.instruments _ instrument
      (accord.twin same fun machine => machine.interrupts.globalProbes)

theorem mirrors_changeVector {change : Table → Nat → Except Fault Table} {hook : Nat → Hook}
    {vector : Nat} (instrument : (hook vector).isInstrument = true)
    (withstands : ∀ {m n}, A m n →
      Concur (fun table table' => A (m.setTable table) (n.setTable table'))
        (change m.interrupts.table vector) (change n.interrupts.table vector)) :
    Attempt.Mirrors A (changeVector env change hook vector)
      (changeVector env change hook vector) := by
  refine .bind (.attempt fun m n same => ?_) fun _ =>
    .lift (accord.mirrors_notifyVector vector instrument)
  exact (withstands same).map fun _ _ => id

theorem mirrors_setPosted {vector : Nat} (posted : Bool) (free : Free vector) :
    Attempt.Mirrors A (setPosted env vector posted) (setPosted env vector posted) := by
  cases posted with
  | true => exact accord.mirrors_changeVector rfl fun same => accord.vector same .post free
  | false => exact accord.mirrors_changeVector rfl fun same => accord.vector same .unpost free

theorem mirrors_setEnabled {vector : Nat} (enabled : Bool) (free : Free vector) :
    Attempt.Mirrors A (setEnabled env vector enabled) (setEnabled env vector enabled) := by
  cases enabled with
  | true => exact accord.mirrors_changeVector rfl fun same => accord.vector same .enable free
  | false => exact accord.mirrors_changeVector rfl fun same => accord.vector same .disable free

/-! ### Self-programming -/

theorem mirrors_writeSpmControl
    (cancel : Action.Mirrors A (unschedule env .spmReset) (unschedule env .spmReset))
    (spm : ∀ {m n} control, A m n →
      A (m.modifySpm fun unit => { unit with control })
        (n.modifySpm fun unit => { unit with control }))
    (ready : ∀ m n, A m n → Free n.part.spmReady) (value : UInt8) :
    Attempt.Mirrors A (writeSpmControl env value) (writeSpmControl env value) := by
  have rest : Attempt.Mirrors A
      (do
        modify fun m => m.modifySpm fun unit => { unit with control := armedValue value }
        setPosted env (← get).part.spmReady (reportsReady (armedValue value)) :
          Attempt World Unit)
      (do
        modify fun m => m.modifySpm fun unit => { unit with control := armedValue value }
        setPosted env (← get).part.spmReady (reportsReady (armedValue value))) := by
    refine .bind (.modify fun _ _ => spm _) fun _ => .getting fun m n same => ?_
    rw [(accord.akin same).part]
    exact accord.mirrors_setPosted _ (ready m n same)
  unfold writeSpmControl
  split
  · exact .bind (.lift cancel) fun _ =>
      .bind (.lift (accord.mirrors_enqueue rfl _)) fun _ => rest
  · exact rest

theorem mirrors_schedulePage (page : Nat) (contents : Option (List UInt8)) :
    Action.Mirrors A (schedulePage env page contents) (schedulePage env page contents) := by
  refine .getting fun m n same => ?_
  dsimp only
  rw [(accord.akin same).part, (accord.akin same).clock]
  exact accord.mirrors_enqueue rfl _

/-! ### State machines -/

/-- The same state machines exist, and their instruments are twins. -/
theorem rel_stateMachine {m n : Machine World} (same : A m n) (id : Nat) :
    Option.Rel
      (fun automaton automaton' => automaton.bare = automaton'.bare ∧
        ∀ source target,
          Twin (automaton.probesFor source target) (automaton'.probesFor source target))
      m.stateMachines[id]? n.stateMachines[id]? := by
  have bare := (accord.akin same).stateMachine? id
  have probes (source target : Int) : Twin
      ((m.stateMachines[id]?.map (StateMachine.probesFor · source target)).getD [])
      ((n.stateMachines[id]?.map (StateMachine.probesFor · source target)).getD []) :=
    accord.twin same fun machine =>
      (machine.stateMachines[id]?.map (StateMachine.probesFor · source target)).getD []
  rcases found : m.stateMachines[id]? with _ | automaton <;>
    rcases found' : n.stateMachines[id]? with _ | automaton' <;>
      rw [found, found'] at bare probes
  · exact .none
  · cases bare
  · cases bare
  · exact .some ⟨Option.some.inj bare, probes⟩

theorem mirrors_settleIn (id : Nat) (state : Int) :
    Action.Mirrors A (modify fun m => m.settleIn id state : Action World Unit)
      (modify fun m => m.settleIn id state) :=
  .modify fun _ _ => accord.settleIn id state

theorem mirrors_beginTransition (id : Nat) {automaton automaton' : StateMachine}
    (bare : automaton.bare = automaton'.bare)
    (probes : ∀ source target,
      Twin (automaton.probesFor source target) (automaton'.probesFor source target))
    (target : Int) (time : Nat) :
    Action.Mirrors A (beginTransition env id automaton target time)
      (beginTransition env id automaton' target time) := by
  have notifies (hook : Hook) (instrument : hook.isInstrument = true) :=
    accord.instruments hook instrument (probes automaton'.current target)
  unfold beginTransition
  dsimp only
  rw [StateMachine.name_of_bare bare, StateMachine.current_of_bare bare]
  refine .bind (accord.mirrors_note _) fun _ => ?_
  by_cases timed : 0 < time
  · simp only [if_pos timed]
    exact .bind (accord.mirrors_settleIn id _) fun _ => .bind (notifies _ rfl) fun _ =>
      accord.mirrors_enqueue rfl _
  · simp only [if_neg timed]
    exact .bind (notifies _ rfl) fun _ => .bind (accord.mirrors_settleIn id _) fun _ =>
      notifies _ rfl

theorem mirrors_requestTransition (id : Nat) (target : Int) :
    Attempt.Mirrors A (requestTransition env id target) (requestTransition env id target) := by
  refine .getting fun m n same => ?_
  have machines := accord.rel_stateMachine same id
  generalize m.stateMachines[id]? = found at machines
  generalize n.stateMachines[id]? = found' at machines
  cases machines with
  | none => exact .pure _
  | @some automaton automaton' both =>
      dsimp only
      rw [StateMachine.accept_of_bare both.1]
      split
      · exact .throw _
      · exact .lift (accord.mirrors_beginTransition id both.1 both.2 target _)

theorem mirrors_completeTransition (id : Nat) (source target : Int) :
    Action.Mirrors A (completeTransition env id source target)
      (completeTransition env id source target) := by
  refine .getting fun m n same => ?_
  have machines := accord.rel_stateMachine same id
  generalize m.stateMachines[id]? = found at machines
  generalize n.stateMachines[id]? = found' at machines
  cases machines with
  | none => exact .pure _
  | @some automaton automaton' both =>
      dsimp only
      rw [StateMachine.owners_of_bare both.1]
      split
      · refine .bind (.modify fun m n same => accord.settleIn _ _ (accord.addOwner _ same))
          fun _ => ?_
        exact .bind (accord.instruments _ rfl (both.2 source target)) fun _ =>
          .modify fun _ _ => accord.dropOwner _
      · exact .pure _

end QuietAccord

namespace Accord

variable {env : Environment World} {A : Machine World → Machine World → Prop}
  {Twin : HandleList → HandleList → Prop} {Free : Nat → Prop} (accord : Accord env A Twin Free)
include accord

/-! ### Timeouts -/

theorem mirrors_schedule (event : Event) (delay : Nat) :
    Action.Mirrors A (schedule env event delay) (schedule env event delay) := by
  refine .getting fun m n same => ?_
  rw [(accord.akin same).cycles]
  exact .bind (accord.mirrors_note _) fun _ => .modify fun _ _ => accord.add event delay

theorem mirrors_timeout : Action.Mirrors A (Machine.timeout env) (Machine.timeout env) := by
  refine .getting fun m n same => ?_
  rw [(accord.akin same).cycles]
  exact .bind (accord.mirrors_note _) fun _ => .modify fun _ _ => accord.timeout

end Accord

end Machine

end Avr

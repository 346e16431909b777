import Avr.Proofs.Clock.Firings
import Avr.Proofs.Machine.Costs

/-!
Contract: the cycles that a step grants to the clock.

Owns:
- the cycle up to which time is granted, as an invariant of everything but an advance;
- instructions and dispatches, of which only the advances in them grant time.

Granted time is what the callbacks leave alone that are asked to let no time pass. How far the clock
has come in delivering it depends on what is queued.
-/

namespace Avr.Machine

open Avr.Time Avr.Isa

variable {World : Type} {env : Environment World} {cycle : Nat}

/-- Time is granted up to a cycle. -/
def GrantedTo (cycle : Nat) (m : Machine World) : Prop :=
  m.clock.queue.agenda.horizon = cycle

theorem Timeless.keeps {m next : Machine World} (timeless : Timeless m next) :
    Keeps (GrantedTo cycle) m next :=
  timeless.trans

theorem keeps_unschedule_grantedTo (event : Event) :
    Action.Respects (Keeps (GrantedTo cycle)) (unschedule env event) where
  related m := by
    rw [Keeps, GrantedTo, GrantedTo, queue_unschedule]
    exact id

theorem keeps_wake_grantedTo : Action.Respects (Keeps (GrantedTo cycle)) (wake env) where
  related m granted := by
    rw [wake, Action.apply_get_bind]
    split <;> exact granted

section Upholds

variable (upholds : env.Upholds (GrantedTo cycle))
include upholds

theorem programInvariant_grantedTo :
    ProgramInvariant env (GrantedTo cycle) fun _ => True where
  note _ := id
  instrument handle hook _ := upholds.notify handle hook
  add _ _ := id
  timeout := id
  vector granted _ _ _ := granted
  load granted _ := granted
  settleIn _ _ := id
  addOwner _ := id
  dropOwner _ := id
  device handle hook _ := upholds.notify handle hook
  readDevice := upholds.readDevice
  writeDevice := upholds.writeDevice
  readDeviceBit := upholds.readDeviceBit
  writeDeviceBit := upholds.writeDeviceBit
  readOutside _ _ _ _ := id
  writeOutside _ _ _ _ := id
  compute _ _ granted _ := granted
  allow := id
  forbid := id

theorem mirrors_writeSpmControl_grantedTo (value : UInt8) :
    Attempt.Mirrors (Itself (GrantedTo cycle)) (writeSpmControl env value)
      (writeSpmControl env value) :=
  (programInvariant_grantedTo upholds).accord.mirrors_writeSpmControl
    (keeps_unschedule_grantedTo _).itself (fun _ ⟨same, granted⟩ => ⟨same ▸ rfl, granted⟩)
    (fun _ _ _ => trivial) value

theorem storing_grantedTo : Storing env (Itself (GrantedTo cycle)) Eq fun _ => True where
  toQuietAccord := (programInvariant_grantedTo upholds).toQuietInvariant.accord
  device handle hook _ := (upholds.notify handle hook).itself
  cancel := (keeps_unschedule_grantedTo _).itself
  fill _ _ _ := fun ⟨same, granted⟩ => ⟨same ▸ rfl, granted⟩
  control value same _ := (mirrors_writeSpmControl_grantedTo upholds value).agree _ _ same

theorem executing_grantedTo : Executing env (Itself (GrantedTo cycle)) Eq fun _ => True where
  toAccesses := (programInvariant_grantedTo upholds).computing.accesses_of_freePairs
    (mirrors_writeSpmControl_grantedTo upholds) (.of_free fun _ => trivial)
    fun _ _ ⟨same, granted⟩ => ⟨same ▸ rfl, granted⟩
  jump _ := fun ⟨same, granted⟩ => ⟨same ▸ rfl, granted⟩
  breaking := fun ⟨same, granted⟩ => ⟨same ▸ rfl, granted⟩

/-- An instruction costs cycles, which it leaves to its caller to grant. -/
theorem keeps_execute_grantedTo (i : Instr) :
    Attempt.Respects (Keeps (GrantedTo cycle)) (execute env i) := by
  have handles : Handles env (Itself (GrantedTo cycle)) i :=
    (programInvariant_grantedTo upholds).computing.handles (fun _ _ => id)
      (fun _ => (storing_grantedTo upholds).mirrors_storeProgram.keeps) fun _ _ => id
  exact ((executing_grantedTo upholds).mirrors_execute
    (.inr fun _ _ _ ⟨same, granted⟩ => ⟨same ▸ rfl, granted⟩) handles).keeps

theorem keeps_notifyAll_grantedTo (handles : HandleList) (hook : Hook) :
    Action.Respects (Keeps (GrantedTo cycle)) (notifyAll env handles hook) :=
  .forM (fun handle => upholds.notify handle hook) handles

end Upholds

/-! ### Advances -/

section Within

variable (within : env.Within Timeless)
include within

theorem upholds_grantedTo : env.Upholds (GrantedTo cycle) :=
  within.mono fun _ _ => Timeless.keeps

theorem timeless_fire (event : Event) : Action.Respects Timeless (fire env event) :=
  .of_mirrors fun _ =>
    have upholds := upholds_grantedTo within
    (storing_grantedTo upholds).settling.mirrors_fire event fun _ =>
      (programInvariant_grantedTo upholds).accord

theorem grantedTo_advance {m : Machine World} (granted : m.GrantedTo cycle) (cycles : Nat) :
    (advance env cycles m).2.GrantedTo (cycle + cycles) := by
  have closed : ClosedUnder env fun _ => True := fun _ _ => ⟨fun _ _ _ _ => trivial⟩
  have delivered : Timeless (m.grant cycles) (advance env cycles m).2 :=
    timeless_deliver (fun event _ => timeless_fire within event) closed env.patience
      fun _ _ => trivial
  have more : (m.grant cycles).GrantedTo (cycle + cycles) := by
    have advanced := DeltaQueue.horizon_perform (.advance cycles) m.clock.queue
    exact advanced.trans (congrArg (· + cycles) granted)
  exact delivered.trans more

theorem grantedTo_spendDelay {m : Machine World} (granted : m.GrantedTo cycle) :
    (spendDelay env m).2.GrantedTo (cycle + m.delayCycles) := by
  rw [spendDelay_eq]
  split
  case isTrue => exact grantedTo_advance (m := { m with delayCycles := 0 }) within granted _
  case isFalse none =>
    rw [Nat.eq_zero_of_not_pos none]
    exact granted

/-- A dispatch that completes takes four cycles. -/
theorem grantedTo_dispatch {m next : Machine World} {vector : Nat} (granted : m.GrantedTo cycle)
    (ran : (dispatch env vector).run m = (.ok (), next)) : next.GrantedTo (cycle + 4) := by
  have executing (cycle : Nat) : Executing env (Itself (GrantedTo cycle)) Eq fun _ => True :=
    executing_grantedTo (upholds_grantedTo within)
  have enters : Attempt.Ensures (GrantedTo cycle) (enterHandler env vector)
      (GrantedTo (cycle + 4)) fun _ _ => True := by
    refine .getting fun m granted => ?_
    refine .weaken (.bind (.of_keeps ((executing cycle).mirrors_pushReturn _).keeps
      fun _ _ _ => trivial) fun _ => ?_) fun start same => same ▸ granted
    refine .bind (.of_keeps (.modify fun _ => id) fun _ _ _ => trivial) fun _ => ?_
    refine .bind (.lift (executing cycle).mirrors_disableInterrupts.keeps.related) fun _ => ?_
    refine .bind (.lift fun m granted => grantedTo_advance within granted 4) fun _ => ?_
    exact .bind (.lift keeps_wake_grantedTo.related) fun _ =>
      .lift ((executing _).mirrors_notifyVector vector rfl).keeps.related
  rw [run_dispatch] at ran
  refine enters.completed _ _ _ ?_ ran
  exact ((executing cycle).mirrors_beforeDispatch vector).keeps.related _ granted

/-- An instruction that completes takes what it costs. -/
theorem grantedTo_runInstruction {m next : Machine World} {pc : Nat} {i : Instr} {own : HandleList}
    (granted : m.GrantedTo cycle) (ran : (runInstruction env pc i own).run m = (.ok (), next)) :
    next.GrantedTo (cycle + instructionCycles env i (approach env pc own m)) := by
  have upholds (cycle : Nat) : env.Upholds (GrantedTo cycle) := upholds_grantedTo within
  have notifies (cycle : Nat) (handles : HandleList) (hook : Hook) :=
    (keeps_notifyAll_grantedTo (upholds cycle) handles hook).related
  have after (cycles : Nat) (all : HandleList) : Attempt.Ensures (GrantedTo cycle)
      (do
        advance env cycles
        notifyAll env own (.afterInstruction pc)
        notifyAll env all (.afterInstruction pc)
        modify fun m => { m with instructionsRun := m.instructionsRun + 1 } : Attempt World Unit)
      (GrantedTo (cycle + cycles)) fun _ _ => True :=
    .bind (.lift fun m granted => grantedTo_advance within granted cycles) fun _ =>
      .bind (.lift (notifies _ _ _)) fun _ => .bind (.lift (notifies _ _ _)) fun _ =>
        .of_keeps (.modify fun _ => id) fun _ _ _ => trivial
  rw [run_runInstruction] at ran
  obtain ⟨cycles, executed, executes, ran⟩ := Attempt.run_bind_eq_ok ran
  have approached : (approach env pc own m).GrantedTo cycle :=
    notifies cycle _ _ _ (notifies cycle _ _ _ granted)
  have before : executed.GrantedTo cycle := by
    have kept := (keeps_execute_grantedTo (upholds cycle) i).run.related _ approached
    rwa [executes] at kept
  rw [← cycles_execute executes]
  exact (after cycles m.probes).completed _ _ _ before ran

end Within

end Avr.Machine

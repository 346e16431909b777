import Avr.Proofs.Machine.Errand
import Avr.Proofs.Machine.FastPath

/-!
Contract: what a machine is left as by the interrupt check of a step, whatever its devices do.

Owns:
- properties of the control of an execution, which no device can change;
- the delay and the interrupt check: a machine that goes on, with nothing left for another check.

Devices and instruments may post vectors during a dispatch, but interrupts are forbidden by then.
-/

namespace Avr.Machine

variable {World Outside : Type} {env : Environment World} {view : World → Outside}
  {m n : Machine World}

/-! ### What devices cannot change -/

/-- The property is one of how the execution is controlled. -/
def OnControl (P : Machine World → Prop) : Prop :=
  ∀ m next : Machine World, P m → next.state = m.state → next.delayCycles = m.delayCycles →
    next.status.i = m.status.i → P next

variable {P : Machine World → Prop}

theorem invariant_control (control : OnControl P) {env : Environment World}
    (discreet : env.Discreet view) : Invariant env P fun _ => True where
  note _ holds := control _ _ holds rfl rfl rfl
  instrument handle hook instrument := ⟨fun m holds => by
    have alike := discreet.instrument handle hook instrument m
    exact control _ _ holds alike.akin.state.symm alike.akin.delayCycles.symm
      (congrArg Status.i alike.akin.status).symm⟩
  add _ _ holds := control _ _ holds rfl rfl rfl
  timeout holds := control _ _ holds rfl rfl rfl
  vector holds _ _ _ := control _ _ holds rfl rfl rfl
  load holds _ := control _ _ holds rfl rfl rfl
  settleIn _ _ holds := control _ _ holds rfl rfl rfl
  addOwner _ holds := control _ _ holds rfl rfl rfl
  dropOwner _ holds := control _ _ holds rfl rfl rfl

theorem unconcerned_control (control : OnControl P) : Unconcerned (Itself P) :=
  unconcerned_itself (fun _ holds => control _ _ holds rfl rfl rfl)
    fun _ holds => control _ _ holds rfl rfl rfl

theorem serving_control (view : World → Outside) (control : OnControl P) :
    Serving view (Itself P) Eq where
  accord discreet := (invariant_control control discreet).accord
  unconcerned := unconcerned_control control
  seen := fun ⟨same, _⟩ => same ▸ .refl view _
  remember := fun ⟨same, holds⟩ _ => ⟨same ▸ rfl, control _ _ holds rfl rfl rfl⟩
  bytes _ := fun ⟨same, holds⟩ => ⟨same ▸ rfl, control _ _ holds rfl rfl rfl⟩
  load _ _ := fun ⟨same, holds⟩ => same ▸ concur_itself fun _ _ =>
    ⟨rfl, control _ _ holds rfl rfl rfl⟩
  set _ _ := fun ⟨same, holds⟩ => same ▸ concur_itself fun _ _ =>
    ⟨rfl, control _ _ holds rfl rfl rfl⟩

/-- An errand keeps every property of the control. -/
theorem keeps_errand (control : OnControl P) {α : Type} {act : Action World α}
    (errand : Errand view act) : Action.Respects (Keeps P) act :=
  ((serving_control view control).mirrors_errand errand).keeps

theorem background_control (transparent : env.Transparent view) (control : OnControl P) :
    Background env (Itself P) Eq fun _ => True :=
  (invariant_control control transparent.discreet).accord.background (unconcerned_control control)
    (fun handle hook device => (keeps_errand control (transparent.device handle hook device)).itself)
    fun _ _ _ => trivial

/-- Neither a stop nor a delay keeps the machine from its interrupt check. -/
structure Going (m : Machine World) : Prop where
  running : m.state ≠ .stopped
  prompt : m.delayCycles = 0

theorem onControl_going : OnControl fun m : Machine World => m.Going :=
  fun _ _ going state delay _ => ⟨state ▸ going.running, delay ▸ going.prompt⟩

theorem onControl_forbidden : OnControl fun m : Machine World => m.status.i = false :=
  fun _ _ forbidden _ _ flag => flag.trans forbidden

theorem programInvariant_going (transparent : env.Transparent view) :
    ProgramInvariant env Going fun _ => True where
  toInvariant := invariant_control onControl_going transparent.discreet
  device handle hook device := keeps_errand onControl_going (transparent.device handle hook device)
  readDevice handle := keeps_errand onControl_going (transparent.readDevice handle)
  writeDevice handle value := ⟨keeps_errand onControl_going (transparent.writeDevice handle value)⟩
  readDeviceBit handle bit := keeps_errand onControl_going (transparent.readDeviceBit handle bit)
  writeDeviceBit handle bit value :=
    ⟨keeps_errand onControl_going (transparent.writeDeviceBit handle bit value)⟩
  readOutside _ _ _ _ going := ⟨going.running, going.prompt⟩
  writeOutside _ _ _ _ going := ⟨going.running, going.prompt⟩
  compute _ _ going _ := ⟨going.running, going.prompt⟩
  allow going := ⟨going.running, going.prompt⟩
  forbid going := ⟨going.running, going.prompt⟩

theorem going_awake (going : m.Going) : m.awake.Going := by
  refine ⟨?_, going.prompt⟩
  rw [awake]
  split
  · exact fun stopped => RunState.noConfusion stopped
  · exact going.running

theorem dispatching_going (transparent : env.Transparent view) :
    Dispatching env (Itself Going) Eq fun _ => True :=
  (programInvariant_going transparent).dispatching (unconcerned_control onControl_going)
    (fun _ => trivial) (fun _ _ going => ⟨going.running, going.prompt⟩)
    (fun _ going => ⟨going.running, going.prompt⟩) going_awake

/-! ### Before the instruction -/

theorem spendDelay_eq (env : Environment World) (m : Machine World) :
    spendDelay env m =
      if 0 < m.delayCycles then advance env m.delayCycles { m with delayCycles := 0 }
      else ((), m) := by
  rw [spendDelay]
  change (if 0 < m.delayCycles then _ else _ : Action World Unit) m = _
  split <;> rfl

theorem spendDelay_of_prompt (prompt : m.delayCycles = 0) : (spendDelay env m).2 = m := by
  rw [spendDelay_eq, prompt]
  rfl

theorem going_spendDelay (transparent : env.Transparent view) (running : m.state ≠ .stopped) :
    Going (spendDelay env m).2 := by
  rw [spendDelay_eq]
  split
  case isTrue =>
    exact ((background_control transparent onControl_going).mirrors_advance _).keeps.related _
      ⟨running, rfl⟩
  case isFalse none => exact ⟨running, Nat.eq_zero_of_not_pos none⟩

theorem Change.settled {next : Machine World} (change : Change m next) (settled : m.Settled) :
    next.Settled := by
  cases change with
  | edit flag returned loop table flash => exact returned.trans settled
  | program | table | allow | forbid => exact settled
  | reset => rfl

theorem status_wake (env : Environment World) (m : Machine World) :
    (wake env m).2.status = m.status := by
  rw [wake]
  change ((if m.sleeping then _ else _ : Action World Unit) m).2.status = _
  split <;> rfl

/-- No device allows interrupts again once the dispatch has forbidden them. -/
theorem forbidden_dispatch (transparent : env.Transparent view) (vector : Nat) :
    Attempt.Ensures (fun _ => True) (dispatch env vector)
      (fun m => m.status.i = false) fun _ _ => True := by
  have background := background_control transparent onControl_forbidden
  have before {α : Type} (act : Attempt World α) :
      Attempt.Ensures (fun _ => True) act (fun _ => True) fun _ _ => True :=
    ⟨fun _ _ _ _ _ => trivial, fun _ _ _ _ _ => trivial⟩
  have after {act : Action World Unit}
      (keeps : Action.Respects (Keeps fun m => m.status.i = false) act) :
      Attempt.Ensures (fun m => m.status.i = false) (liftM act : Attempt World Unit)
        (fun m => m.status.i = false) fun _ _ => True :=
    .lift keeps.related
  have forbids : Attempt.Ensures (fun _ => True)
      (liftM (disableInterrupts env) : Attempt World Unit) (fun m => m.status.i = false)
      fun _ _ => True :=
    .lift fun _ _ => (background.mirrors_notifyGlobal rfl).keeps.related _ rfl
  refine .bind (before _) fun _ => .bind (before _) fun _ => .bind (before _) fun _ => ?_
  refine .bind (before _) fun _ => .bind (before _) fun _ => .bind (before _) fun _ => ?_
  refine .bind forbids fun _ => .bind (after (background.mirrors_advance 4).keeps) fun _ => ?_
  refine .bind (after ⟨fun m forbidden => ?_⟩) fun _ =>
    after (background.mirrors_notifyVector vector rfl).keeps
  change (wake env m).2.status.i = false
  rw [status_wake]
  exact forbidden

/-- After the check and before the instruction a machine is going, settled, and quiet unless a
dispatch was put off. -/
structure Checked (owed : Bool) (m : Machine World) : Prop where
  going : m.Going
  settled : m.Settled
  idle : owed = false → m.status.i = true → m.interrupts.table.pending = 0

theorem checked_checkInterrupts (transparent : env.Transparent view) (going : m.Going)
    {owed : Bool} {reached : Machine World}
    (checks : (checkInterrupts env true).run m = (.ok owed, reached)) : Checked owed reached := by
  cases returned : m.justReturned with
  | true =>
      rw [checkInterrupts, Attempt.run_bind, Attempt.run_get] at checks
      simp only [returned] at checks
      cases checks
      exact ⟨⟨going.running, going.prompt⟩, rfl, fun unowed => by cases unowed⟩
  | false =>
      by_cases idle : m.status.i = true → m.interrupts.table.pending = 0
      · rw [run_checkInterrupts_of_quiet ⟨returned, idle⟩] at checks
        cases checks
        exact ⟨going, returned, fun _ => idle⟩
      · obtain ⟨allowed, pending⟩ := Classical.not_imp.mp idle
        obtain ⟨vector, offered⟩ := Option.ne_none_iff_exists'.mp
          fun none => pending (Interrupt.Table.first?_eq_none_iff.mp none)
        rw [run_checkInterrupts_of_first returned allowed offered, Attempt.run_bind] at checks
        rcases dispatched : (dispatch env vector).run m with ⟨fault | value, next⟩ <;>
          rw [dispatched] at checks <;> cases checks
        have goes := ((dispatching_going transparent).mirrors_dispatch vector).keeps.run.related m
          going
        have settles := (tame_dispatch transparent.tame vector).run.related m
        have settled : reached.Settled := by
          rw [dispatched] at settles
          exact settles.keeps (fun _ _ change => change.settled) returned
        have forbidden := (forbidden_dispatch transparent vector).completed m _ _ trivial dispatched
        rw [dispatched] at goes
        exact ⟨goes, settled, fun _ allowed => by rw [forbidden] at allowed; cases allowed⟩

end Avr.Machine

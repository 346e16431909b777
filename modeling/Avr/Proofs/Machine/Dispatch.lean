import Avr.Proofs.Machine.Step

/-!
Contract: dispatches and those who are told about them.

Owns:
- the vector that a step dispatches, and steps that dispatch none;
- the calls before a dispatch and when a vector is forced, where nobody follows the vector.
-/

namespace Avr.Machine

open Avr.Interrupt

variable {World : Type} {env : Environment World} {vector : Nat} {m next ready : Machine World}

/-! ### Steps -/

/-- The vector that a step dispatches, if it dispatches one, and the machine just before. -/
def dispatched? (env : Environment World) (m : Machine World) : Option (Nat × Machine World) :=
  if m.state = .stopped then
    none
  else
    let (ready, check) := takeCheck (spendDelay env m).2
    if check && !ready.justReturned && ready.status.i then
      ready.interrupts.table.first?.map fun vector => (vector, ready)
    else
      none

/-- What a step that dispatches a vector finds. -/
structure Dispatches (env : Environment World) (m : Machine World) (vector : Nat)
    (ready : Machine World) : Prop where
  running : m.state ≠ .stopped
  checks : takeCheck (spendDelay env m).2 = (ready, true)
  settled : ready.justReturned = false
  allowed : ready.status.i = true
  offered : ready.interrupts.table.first? = some vector

theorem dispatches_of_dispatched (dispatched : dispatched? env m = some (vector, ready)) :
    Dispatches env m vector ready := by
  rw [dispatched?] at dispatched
  split at dispatched
  · cases dispatched
  · next running =>
    dsimp only at dispatched
    split at dispatched
    · next due =>
      simp only [Bool.and_eq_true, Bool.not_eq_true'] at due
      obtain ⟨⟨check, settled⟩, allowed⟩ := due
      obtain ⟨first, offered, same⟩ := Option.map_eq_some_iff.mp dispatched
      cases same
      exact ⟨running, Prod.ext rfl check, settled, allowed, offered⟩
    · cases dispatched

theorem Dispatches.run_pollInterrupts (dispatches : Dispatches env m vector ready) :
    (pollInterrupts env).run (spendDelay env m).2 =
      (do dispatch env vector; return false : Attempt World Bool).run ready := by
  rw [run_pollInterrupts_eq_check, dispatches.checks]
  exact run_checkInterrupts_of_first dispatches.settled dispatches.allowed dispatches.offered

/-- A step that dispatches a vector begins with that. -/
theorem Dispatches.run_step (dispatches : Dispatches env m vector ready) :
    (step env).run m =
      (do orBreak (dispatch env vector); finishStep env false : Stepping World Unit).run ready := by
  rw [step_eq, run_stepPolling, if_neg dispatches.running]
  exact run_finishStep_of_dispatch dispatches.run_pollInterrupts

/-- What the interrupt check leaves without a dispatch. An instruction that is owed is still owed. -/
def undispatched (m : Machine World) : Machine World :=
  let (ready, check) := takeCheck m
  if check && ready.justReturned then
    { ready with justReturned := false, innerLoop := false }
  else
    ready

/-- Every other check changes marks only. -/
theorem run_pollInterrupts_of_not_dispatched (running : m.state ≠ .stopped)
    (quiet : dispatched? env m = none) :
    ∃ owed, (pollInterrupts env).run (spendDelay env m).2 =
      (.ok owed, (spendDelay env m).2.undispatched) := by
  rw [dispatched?, if_neg running] at quiet
  rcases taken : takeCheck (spendDelay env m).2 with ⟨ready, check⟩
  rw [taken] at quiet
  rw [run_pollInterrupts_eq_check, undispatched, taken, checkInterrupts, Attempt.run_bind,
    Attempt.run_get]
  dsimp only at quiet ⊢
  cases check with
  | false => exact ⟨false, rfl⟩
  | true =>
      cases returned : ready.justReturned with
      | true => exact ⟨true, rfl⟩
      | false =>
          refine ⟨false, ?_⟩
          rw [returned] at quiet
          cases allowed : ready.status.i with
          | false => rfl
          | true =>
              rw [allowed] at quiet
              have empty : ready.interrupts.table.first? = none := by simpa using quiet
              rw [empty]
              rfl

/-- Every other step goes on without a dispatch. -/
theorem run_step_of_not_dispatched (running : m.state ≠ .stopped)
    (quiet : dispatched? env m = none) :
    ∃ owed, (step env).run m = (finishStep env owed).run (spendDelay env m).2.undispatched := by
  obtain ⟨owed, polls⟩ := run_pollInterrupts_of_not_dispatched running quiet
  refine ⟨owed, ?_⟩
  rw [step_eq, run_stepPolling, if_neg running, Attempt.run_bind, run_orBreak, polls]

theorem Dispatches.isPosted (dispatches : Dispatches env m vector ready)
    (sound : ready.interrupts.table.Sound) : ready.interrupts.table.isPosted vector = true := by
  have pending := sound.isPending_iff.mpr (Table.first?_eq_some_iff.mp dispatches.offered).1
  rw [sound.isPending_eq, Bool.and_eq_true] at pending
  exact pending.1

/-! ### Calls of devices -/

/-- A fault of what a device does is recorded where no one receives it. -/
theorem run_orReport {act : Attempt World Unit} (ran : act.run m = (.ok (), next))
    (report : Fault → Action World Unit) :
    (do
      match ← act.run with
      | .ok () => return
      | .error fault => report fault : Action World Unit) m = ((), next) := by
  change (match (act.run m).1 with
    | .ok () => pure ()
    | .error fault => report fault : Action World Unit) (act.run m).2 = _
  rw [ran]
  rfl

/-- To force a vector of a flag sets the flag. -/
theorem notifyForced_eq (env : Environment World) (vector : Nat) (m : Machine World) :
    notifyForced env vector m =
      (match m.interrupts.notification? vector with
        | none => pure ()
        | some (.outside handle) => env.notify handle (.forced vector)
        | some (.flag pair bit _) => do
          match ← (setFlagBit env pair bit true).run with
          | .ok () => return
          | .error fault => note env (.forceFailed vector fault) : Action World Unit) m := rfl

/-- To dispatch a vector of a flag clears the flag, unless that is sticky. -/
theorem notifyInvoked_eq (env : Environment World) (vector : Nat) (m : Machine World) :
    notifyInvoked env vector m =
      (match m.interrupts.notification? vector with
        | none => pure ()
        | some (.outside handle) => env.notify handle (.invoked vector)
        | some (.flag pair bit sticky) => do
          if sticky then
            return
          match ← (setFlagBit env pair bit false).run with
          | .ok () => return
          | .error fault => note env (.clearFailed vector fault) : Action World Unit) m := rfl

theorem beforeDispatch_of_quiet (quiet : m.interrupts.probesFor vector = []) :
    beforeDispatch env vector m = notifyInvoked env vector m := by
  have silent : notifyVector env vector .beforeInvoke m = ((), m) := by
    change notifyAll env (m.interrupts.probesFor vector) (.beforeInvoke vector) m = _
    rw [quiet]
    rfl
  change notifyInvoked env vector (notifyVector env vector .beforeInvoke m).2 = _
  rw [silent]

theorem run_dispatch (env : Environment World) (vector : Nat) (m : Machine World) :
    (dispatch env vector).run m =
      (enterHandler env vector).run (beforeDispatch env vector
        { m with world := env.note (.dispatched vector m.cycles) m.world }).2 := by
  rw [dispatch_eq]
  generalize enterHandler env vector = enters
  generalize beforeDispatch env vector = before
  rfl

end Avr.Machine

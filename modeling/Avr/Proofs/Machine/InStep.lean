import Avr.Proofs.Machine.Vigilance

/-!
Contract: two machines that take whole steps side by side.

Owns:
- what an accord has to withstand of a step and of a stop, beside what instructions do, where both
  machines have the same instruments;
- the parts of a step, steps and stops as mirrors of themselves.
-/

namespace Avr.Machine

variable {World : Type}

/-- An accord that withstands everything a step does, and stops. -/
structure InStep (env : Environment World) (A : Machine World → Machine World → Prop) : Prop
    extends Stepwise env A Eq fun _ => True where
  flagless : Flagless A
  handles : ∀ i, Handles env A i
  check : Attempt.Mirrors A (answer takeCheck : Attempt World Bool) (answer takeCheck)
  fetch : Attempt.Mirrors A (Machine.fetch : Attempt World Fetched) Machine.fetch
  returned : ∀ {m n} justReturned, A m n →
    A { m with justReturned, innerLoop := false } { n with justReturned, innerLoop := false }
  stopping : ∀ {m n}, A m n →
    A { m with state := .stopped, halt := some .stop }
      { n with state := .stopped, halt := some .stop }

namespace InStep

variable {env : Environment World} {A : Machine World → Machine World → Prop}
  (inStep : InStep env A)
include inStep

theorem mirrors_stop : Action.Mirrors A (stop env) (stop env) := by
  refine .getting fun m n same => ?_
  rw [(inStep.akin same).cycles]
  exact .bind (inStep.mirrors_note _) fun _ => .modify fun _ _ => inStep.stopping

theorem mirrors_pollInterrupts : Attempt.Mirrors A (pollInterrupts env) (pollInterrupts env) :=
  .bind inStep.check (inStep.mirrors_checkInterrupts (inStep.returned false))

theorem mirrors_pauseAt (pc : Nat) (owed : Bool) :
    Attempt.Mirrors A (pauseAt env pc owed) (pauseAt env pc owed) := by
  refine .bind (.lift (inStep.mirrors_note _)) fun _ => ?_
  split
  · exact .bind (.modify fun _ _ => inStep.returned true) fun _ => .throw _
  · exact .throw _

theorem mirrors_proceed (pc : Nat) (owed : Bool) (fetched : Fetched) :
    Attempt.Mirrors A (proceed env pc owed fetched) (proceed env pc owed fetched) := by
  have runs (i : Isa.Instr) (own : HandleList) :=
    mirrors_orBreak (inStep.mirrors_runInstruction pc (.inr inStep.flagless) (inStep.handles i)
      (rfl : own = own))
  cases fetched with
  | plain i => exact runs i []
  | probed i own => exact runs i own
  | paused => exact inStep.mirrors_pauseAt pc owed

theorem mirrors_stepInstruction (owed : Bool) :
    Attempt.Mirrors A (stepInstruction env owed) (stepInstruction env owed) := by
  refine .getting fun m n same => ?_
  rw [(inStep.akin same).pc]
  exact .bind (mirrors_orBreak inStep.fetch) (inStep.mirrors_proceed n.pc owed)

theorem mirrors_step : Attempt.Mirrors A (step env) (step env) := by
  refine .getting fun m n same => ?_
  rw [(inStep.akin same).state]
  dsimp only
  split
  · exact .throw _
  · refine .bind (.lift inStep.mirrors_spendDelay) fun _ => ?_
    refine .bind (mirrors_orBreak inStep.mirrors_pollInterrupts) fun owed => ?_
    refine .getting fun m n same => ?_
    rw [(inStep.akin same).sleeping]
    split
    · exact .bind (.lift inStep.mirrors_sleepOn) fun _ => inStep.mirrors_takeHalt
    · exact .bind (inStep.mirrors_stepInstruction owed) fun _ => inStep.mirrors_takeHalt

end InStep

end Avr.Machine

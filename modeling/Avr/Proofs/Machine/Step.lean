import Avr.Machine.Run
import Avr.Proofs.Machine.Vigilance

/-!
Contract: what a step keeps true of a machine.

Owns:
- a whole step, from the delay to the pause that was asked for;
- the instruction that a step executes, and the machine on which it does;
- what a single step through a breakpoint comes to;
- the invariants that a step keeps.
-/

namespace Avr.Machine

variable {World : Type} {env : Environment World} {P : Machine World → Prop} {Free : Nat → Prop}

/-! ### A whole step -/

theorem run_finishStep (owed : Bool) (m : Machine World) :
    (finishStep env owed).run m =
      if m.sleeping then (do sleepOn env; takeHalt : Stepping World Unit).run m
      else (do stepInstruction env owed; takeHalt : Stepping World Unit).run m := by
  rw [finishStep, Attempt.run_bind, Attempt.run_get]
  dsimp only
  cases m.sleeping <;> rfl

theorem run_finishStep_of_fetch {m : Machine World} (awake : m.sleeping = false)
    {fetched : Fetched} {flash : Flash} (fetches : m.flash.fetch m.pc = .ok (fetched, flash))
    (owed : Bool) :
    (finishStep env owed).run m =
      (do proceed env m.pc owed fetched; takeHalt : Stepping World Unit).run { m with flash } := by
  have notAsleep : ¬ m.sleeping = true := by rw [awake]; exact Bool.false_ne_true
  rw [run_finishStep, if_neg notAsleep, Attempt.run_bind, run_stepInstruction, fetches,
    Attempt.run_bind]

/-- How a step ends, by the pause that was asked for. -/
def ending : Option Halt → Except Break Unit
  | none => .ok ()
  | some .break => .error .break
  | some .timeout => .error .timeout
  | some .stop => .error .stopped

theorem ending_injective : Function.Injective ending := by
  intro halt other same
  rcases halt with _ | halt <;> rcases other with _ | other
  · rfl
  · cases other <;> cases same
  · cases halt <;> cases same
  · cases halt <;> cases other <;> cases same <;> rfl

theorem run_takeHalt (m : Machine World) :
    (takeHalt : Stepping World Unit).run m = (ending m.halt, { m with halt := none }) := by
  rw [takeHalt, Attempt.run_bind, Attempt.run_get]
  dsimp only
  cases m.halt with
  | none => rfl
  | some halt => cases halt <;> rfl

theorem run_step_of_stopped {m : Machine World} (stopped : m.state = .stopped) :
    (step env).run m = (.error .stopped, m) := by
  rw [step_eq, run_stepPolling, if_pos stopped]

/-- The instruction that a step executes, if it comes to execute one. -/
def executes? (env : Environment World) (m : Machine World) : Option Isa.Instr :=
  if m.state = .stopped then
    none
  else
    match (pollInterrupts env).run (spendDelay env m).2 with
    | (.error _, _) => none
    | (.ok _, reached) =>
      if reached.sleeping then
        none
      else
        match reached.flash.fetch reached.pc with
        | .error _ => none
        | .ok (fetched, _) => Flash.delivered? fetched

/-- The machine on which an instruction is executed: the probes before it have been called. -/
def approach (env : Environment World) (pc : Nat) (own : HandleList) (m : Machine World) :
    Machine World :=
  let called := (notifyAll env m.probes (.beforeInstruction pc) m).2
  (notifyAll env own (.beforeInstruction pc) called).2

/-- The machine on which a step executes its instruction, if it comes to execute one. -/
def approached (env : Environment World) (m : Machine World) : Machine World :=
  let reached := ((pollInterrupts env).run (spendDelay env m).2).2
  match reached.flash.fetch reached.pc with
  | .ok (fetched, flash) => approach env reached.pc (Flash.ownProbes fetched) { reached with flash }
  | .error _ => reached

/-- A step that executes an instruction ends with it, after the check and the fetch. -/
theorem run_step_of_executes {m : Machine World} {i : Isa.Instr}
    (executes : executes? env m = some i) :
    ∃ owed reached fetched flash,
      (pollInterrupts env).run (spendDelay env m).2 = (.ok owed, reached) ∧
      reached.sleeping = false ∧ reached.flash.fetch reached.pc = .ok (fetched, flash) ∧
      (step env).run m =
        (do orBreak (runInstruction env reached.pc i (Flash.ownProbes fetched)); takeHalt :
          Stepping World Unit).run { reached with flash } := by
  rw [executes?] at executes
  split at executes
  case isTrue => cases executes
  case isFalse running =>
    rw [step_eq, run_stepPolling, if_neg running, Attempt.run_bind, run_orBreak]
    rcases ran : (pollInterrupts env).run (spendDelay env m).2 with ⟨fault | owed, reached⟩
    · rw [ran] at executes
      cases executes
    · rw [ran] at executes
      dsimp only at executes
      cases asleep : reached.sleeping with
      | true =>
          rw [asleep] at executes
          cases executes
      | false =>
          rw [asleep] at executes
          rcases fetches : reached.flash.fetch reached.pc with fault | ⟨fetched, flash⟩
          · rw [fetches] at executes
            cases executes
          · rw [fetches] at executes
            refine ⟨owed, reached, fetched, flash, rfl, asleep, fetches,
              (run_finishStep_of_fetch asleep fetches owed).trans ?_⟩
            cases fetched with
            | plain i' | probed i' own =>
                cases executes
                rfl
            | paused => cases executes

/-- An instruction with the probes after it, from the machine that the probes before it leave. -/
theorem run_runInstruction (pc : Nat) (i : Isa.Instr) (own : HandleList) (m : Machine World) :
    (runInstruction env pc i own).run m =
      (do
        let cycles ← execute env i
        advance env cycles
        notifyAll env own (.afterInstruction pc)
        notifyAll env m.probes (.afterInstruction pc)
        modify fun m => { m with instructionsRun := m.instructionsRun + 1 } :
          Attempt World Unit).run (approach env pc own m) :=
  rfl

/-! ### Single steps -/

theorem run_stepThrough (m : Machine World) :
    (stepThrough env).run m =
      match (step env).run m with
      | (.error (.breakpoint _), next) => (step env).run next
      | ended => ended := by
  rw [stepThrough, Attempt.run_tryCatch]
  rcases (step env).run m with ⟨broken | value, next⟩
  · cases broken <;> rfl
  · rfl

theorem run_stepIn (m : Machine World) :
    (stepIn env).run m =
      match (stepThrough env).run m with
      | (.ok (), next) => (.ok (), next.setPause .tripwire)
      | (.error broken, next) =>
        match broken.verdict with
        | .ok pause => (.ok (), next.setPause pause)
        | .error fault => (.error fault, next.setPause .unsuccessful) := by
  rw [stepIn, Attempt.run_bind, Attempt.run_lift]
  dsimp only
  generalize (stepThrough env).run m = ended
  rcases ended with ⟨broken | value, next⟩
  · cases broken <;> rfl
  · rfl

namespace Stepwise

variable (stepwise : Stepwise env (Itself P) Eq Free)
include stepwise

theorem keeps_pauseAt (pc : Nat) {owed : Bool}
    (pausing : owed = true → ∀ m, P m → P { m with justReturned := true, innerLoop := false }) :
    Attempt.Respects (Keeps P) (pauseAt env pc owed) := by
  refine .bind (.lift (stepwise.mirrors_note _).keeps) fun _ => ?_
  cases owed with
  | true => exact .bind (.modify (pausing rfl)) fun _ => .throw _
  | false => exact .throw _

section Execution

variable (flagless : ∀ m status, P m → P { m with status })
include flagless

theorem keeps_runInstruction (pc : Nat) {i : Isa.Instr} (handles : Handles env (Itself P) i)
    (own : HandleList) : Attempt.Respects (Keeps P) (runInstruction env pc i own) :=
  (stepwise.mirrors_runInstruction pc
    (.inr fun _ _ _ ⟨same, holds⟩ => ⟨same ▸ rfl, flagless _ _ holds⟩) handles rfl).keeps

theorem keeps_proceed (pc : Nat) {owed : Bool} {fetched : Fetched}
    (handles : ∀ i, Flash.delivered? fetched = some i → Handles env (Itself P) i)
    (pausing : owed = true → ∀ m, P m → P { m with justReturned := true, innerLoop := false }) :
    Attempt.Respects (Keeps P) (proceed env pc owed fetched) := by
  have run (i : Isa.Instr) (own : HandleList) (handles : Handles env (Itself P) i) :
      Attempt.Respects (Keeps P) (orBreak (runInstruction env pc i own)) :=
    (mirrors_orBreak (stepwise.keeps_runInstruction flagless pc handles own).itself).keeps
  cases fetched with
  | plain i => exact run i [] (handles i rfl)
  | probed i own => exact run i own (handles i rfl)
  | paused => exact stepwise.keeps_pauseAt pc pausing

/-- What follows the interrupt check keeps an invariant that the executed instruction keeps. -/
theorem keeps_finishStep (changes : ExecutionInvariant P) {owed : Bool} {reached : Machine World}
    (polled : P reached)
    (handles : reached.sleeping = false → ∀ {fetched flash},
      reached.flash.fetch reached.pc = .ok (fetched, flash) →
      ∀ i, Flash.delivered? fetched = some i → Handles env (Itself P) i)
    (pausing : owed = true → ∀ m, P m → P { m with justReturned := true, innerLoop := false }) :
    P ((finishStep env owed).run reached).2 := by
  have halts : Attempt.Respects (Keeps P) (takeHalt : Stepping World Unit) :=
    stepwise.mirrors_takeHalt.keeps
  rw [run_finishStep]
  cases asleep : reached.sleeping with
  | true =>
      have slept : Attempt.Respects (Keeps P) (do sleepOn env; takeHalt : Stepping World Unit) :=
        .bind (.lift stepwise.mirrors_sleepOn.keeps) fun _ => halts
      exact slept.run.related reached polled
  | false =>
      simp only [Bool.false_eq_true, if_false]
      rw [Attempt.run_bind, run_stepInstruction]
      cases fetches : reached.flash.fetch reached.pc with
      | error fault => exact polled
      | ok found =>
          obtain ⟨fetched, flash⟩ := found
          have rest : Attempt.Respects (Keeps P)
              (proceed env reached.pc owed fetched >>= fun _ => takeHalt) :=
            .bind (stepwise.keeps_proceed flagless _ (handles asleep fetches) pausing)
              fun _ => halts
          have after := rest.run.related _ (changes.fetch polled fetches)
          rw [Attempt.run_bind] at after
          exact after

end Execution

variable (changes : StepInvariant P)
include changes

theorem keeps_pollInterrupts : Attempt.Respects (Keeps P) (pollInterrupts env) :=
  .bind (.answer fun _ holds => changes.look true (changes.stale false holds)) fun check =>
    (stepwise.mirrors_checkInterrupts
      (fun ⟨same, holds⟩ => ⟨same ▸ rfl, changes.returned false (changes.look false holds)⟩)
      check).keeps

/-- A step keeps an invariant that the executed instruction keeps. -/
theorem keeps_step (flagless : ∀ m status, P m → P { m with status }) {m : Machine World}
    (holds : P m) (handles : ∀ i, executes? env m = some i → Handles env (Itself P) i) :
    P ((step env).run m).2 := by
  rw [step_eq, run_stepPolling]
  split
  case isTrue => exact holds
  case isFalse running =>
    have spent : P (spendDelay env m).2 := stepwise.mirrors_spendDelay.keeps.related m holds
    have polled := (stepwise.keeps_pollInterrupts changes).run.related _ spent
    rw [executes?, if_neg running] at handles
    rw [Attempt.run_bind, run_orBreak]
    rcases ran : (pollInterrupts env).run (spendDelay env m).2 with ⟨fault | owed, reached⟩
    · rw [ran] at polled
      exact polled
    · rw [ran] at polled handles
      refine stepwise.keeps_finishStep flagless changes.toExecutionInvariant polled
        (fun awake fetched flash fetches i delivers => handles i ?_)
        fun _ _ holds => changes.returned true (changes.look false holds)
      dsimp only
      rw [awake, fetches]
      exact delivers

end Stepwise

end Avr.Machine

import Avr.Proofs.Machine.Dispatch
import Avr.Proofs.Machine.Steady

/-!
Contract: after a return from a handler one instruction runs before the next dispatch.

Owns:
- the number of executed instructions, which only grows;
- machines that owe an instruction, until one has run, however often a breakpoint pauses them;
- the interrupt check after that instruction.

The machine need not be one that operations and steps lead to: what is owed is in its marks alone.
-/

namespace Avr.Machine

open Avr.Interrupt Avr.Isa

variable {World : Type} {env : Environment World} {P Q S : Machine World → Prop} {m : Machine World}

/-! ### Executed instructions -/

/-- The number of executed instructions only grows. -/
theorem lasting_counted (within : env.Within Steady) (count : Nat) :
    Lasting env fun m => count ≤ m.instructionsRun :=
  .of_steady within fun _ _ steady counted => steady.counted ▸ counted

theorem handles_counted (within : env.Within Steady) (count : Nat) (i : Instr) :
    Handles env (Itself fun m => count ≤ m.instructionsRun) i :=
  (lasting_counted within count).handles (fun _ _ counted => counted) fun _ _ counted => counted

theorem stepwise_counted (within : env.Within Steady) (count : Nat) :
    Stepwise env (Itself fun m => count ≤ m.instructionsRun) Eq fun _ => True :=
  (lasting_counted within count).stepwise fun _ counted => Nat.le_succ_of_le counted

theorem counted_step (within : env.Within Steady) (m : Machine World) :
    m.instructionsRun ≤ ((step env).run m).2.instructionsRun := by
  have changes : StepInvariant fun next : Machine World => m.instructionsRun ≤ next.instructionsRun :=
    { (lasting_counted within m.instructionsRun).executionInvariant fun _ counted =>
        Nat.le_succ_of_le counted with
      returned := fun _ counted => counted
      look := fun _ counted => counted
      stale := fun _ counted => counted }
  exact (stepwise_counted within m.instructionsRun).keeps_step changes (fun _ _ counted => counted)
    (Nat.le_refl _) fun i _ => handles_counted within _ i

/-- An instruction that runs to the end counts. -/
theorem ensures_counted (within : env.Within Steady) (count : Nat) (i : Instr) (pc : Nat)
    (own : HandleList) :
    Attempt.Ensures (fun m => count ≤ m.instructionsRun) (runInstruction env pc i own)
      (fun m => count < m.instructionsRun) fun _ _ => True := by
  have executes : Attempt.Respects (Keeps fun m => count ≤ m.instructionsRun) (execute env i) :=
    ((stepwise_counted within count).mirrors_execute
      (.inr fun _ _ _ ⟨same, counted⟩ => ⟨same ▸ rfl, counted⟩)
      (handles_counted within count i)).keeps
  exact ensures_runInstruction (lasting_counted within count) (lasting_counted within count)
    (.of_keeps executes fun _ _ _ => trivial) (fun _ counted => Nat.lt_succ_of_le counted) pc own

/-! ### The instruction that is owed -/

/-- After a return from a handler, until an instruction has run. -/
structure Owing (m : Machine World) : Prop where
  returned : m.justReturned = true
  alert : m.innerLoop = false
  awake : m.sleeping = false

/-- The next check is made, and dispatches whatever can be dispatched. -/
structure Due (m : Machine World) : Prop where
  settled : m.justReturned = false
  alert : m.innerLoop = false

section Steadiness

variable (within : env.Within Steady)
include within

theorem lasting_owing : Lasting env Owing :=
  .of_steady within fun _ _ steady owing =>
    ⟨steady.returned.trans owing.returned, steady.alert owing.alert, steady.awake owing.awake⟩

theorem lasting_due : Lasting env Due :=
  .of_steady within fun _ _ steady due => ⟨steady.returned.trans due.settled, steady.alert due.alert⟩

theorem lasting_awake : Lasting env fun m => m.sleeping = false :=
  .of_steady within fun _ _ steady awake => steady.awake awake

/-- A return leaves an instruction owed. -/
theorem owing_reti :
    Attempt.Ensures (fun m => m.sleeping = false) (execute env (.control .reti)) Owing
      fun _ _ => True := by
  have alert : Lasting env fun m => m.innerLoop = false ∧ m.sleeping = false :=
    .of_steady within fun _ _ steady => And.imp steady.alert steady.awake
  exact ensures_return alert (fun m alert awake => ⟨rfl, alert, awake⟩) (lasting_awake within)
    (lasting_owing within)

end Steadiness

/-- A step that executes a return leaves an instruction owed. -/
theorem owing_of_return (within : env.Within Steady) (returns : executes? env m = some (.control .reti))
    (survives : isFatal ((step env).run m).1 = false) : ((step env).run m).2.Owing := by
  obtain ⟨-, reached, fetched, flash, -, awake, -, ran⟩ := run_step_of_executes returns
  change (step env).run m = (finishInstruction env reached.pc (.control .reti)
    (Flash.ownProbes fetched)).run { reached with flash } at ran
  rw [ran] at survives ⊢
  have runs : Attempt.Ensures (fun m => m.sleeping = false)
      (runInstruction env reached.pc (.control .reti) (Flash.ownProbes fetched)) Owing
      fun _ _ => True :=
    ensures_runInstruction (lasting_awake within) (lasting_owing within) (owing_reti within)
      (fun m owing => ⟨owing.returned, owing.alert, owing.awake⟩) _ _
  exact holds_finishInstruction runs (lasting_owing within) awake survives

theorem spent_owing (within : env.Within Steady) (owing : m.Owing) : (spendDelay env m).2.Owing :=
  ((lasting_owing within).stepwise fun _ owing =>
    ⟨owing.returned, owing.alert, owing.awake⟩).mirrors_spendDelay.keeps.related m owing

/-- No vector is dispatched as long as an instruction is owed. -/
theorem Owing.undispatched (within : env.Within Steady) (owing : m.Owing) :
    dispatched? env m = none := by
  have spent := spent_owing within owing
  rw [dispatched?]
  split
  · rfl
  · have returned : (takeCheck (spendDelay env m).2).1.justReturned = true := spent.returned
    dsimp only
    rw [returned]
    simp

/-- The machine with its return forgotten, after the check that was put off. -/
def excused (m : Machine World) : Machine World :=
  { (takeCheck m).1 with justReturned := false, innerLoop := false }

/-- The check is put off. -/
theorem Owing.run_pollInterrupts (env : Environment World) (owing : m.Owing) :
    (pollInterrupts env).run m = (.ok true, m.excused) := by
  have checks : (takeCheck m).2 = true := by
    rw [takeCheck, owing.alert]
    rfl
  have returned : (takeCheck m).1.justReturned = true := owing.returned
  rw [run_pollInterrupts_eq_check, checks, checkInterrupts, Attempt.run_bind, Attempt.run_get]
  simp only [returned]
  rfl

/-- The rest of a step after a check that was put off runs an instruction, or pauses with it owed. -/
theorem finishStep_of_due (within : env.Within Steady) (due : m.Due) (awake : m.sleeping = false)
    (survives : isFatal ((finishStep env true).run m).1 = false) :
    ∃ fetched flash, m.flash.fetch m.pc = .ok (fetched, flash) ∧
      ((Flash.delivered? fetched = none ∧ ((finishStep env true).run m).2.Owing) ∨
        ∃ i, Flash.delivered? fetched = some i ∧
          m.instructionsRun < ((finishStep env true).run m).2.instructionsRun ∧
          (i ≠ .control .reti → ((finishStep env true).run m).2.Due)) := by
  have ended := finishes env awake true
  revert survives
  generalize (finishStep env true).run m = stepped at ended ⊢
  intro survives
  cases ended with
  | refused fetches => cases survives
  | @executed fetched flash i own fetches carries =>
      refine ⟨fetched, flash, fetches, .inr ⟨i, carries.delivered, ?_, fun other => ?_⟩⟩
      · exact holds_finishInstruction (ensures_counted within m.instructionsRun i m.pc own)
          (lasting_counted within (m.instructionsRun + 1)) (Nat.le_refl m.instructionsRun) survives
      · have stepwise := (lasting_due within).stepwise fun _ due => ⟨due.settled, due.alert⟩
        have keeps : Attempt.Respects (Keeps Due) (runInstruction env m.pc i own) :=
          stepwise.keeps_runInstruction (fun _ _ due => ⟨due.settled, due.alert⟩) m.pc
            ((lasting_due within).handles (fun reti => absurd reti other)
              fun _ _ due => ⟨due.settled, rfl⟩) own
        exact holds_finishInstruction (.of_keeps keeps fun _ _ _ => trivial) (lasting_due within)
          (m := { m with flash }) ⟨due.settled, due.alert⟩ survives
  | @paused flash fetches => exact ⟨.paused, flash, fetches, .inl ⟨rfl, rfl, rfl, awake⟩⟩

/-- A step that does not fail runs the instruction that is owed, or leaves it owed. -/
theorem owing_step (within : env.Within Steady) (owing : m.Owing)
    (survives : isFatal ((step env).run m).1 = false) :
    (executes? env m = none ∧ ((step env).run m).2.Owing) ∨
      ∃ i, executes? env m = some i ∧ m.instructionsRun < ((step env).run m).2.instructionsRun ∧
        (i ≠ .control .reti → ((step env).run m).2.Due) := by
  by_cases stopped : m.state = .stopped
  · rw [run_step_of_stopped stopped, executes?, if_pos stopped]
    exact .inl ⟨rfl, owing⟩
  · have spent := spent_owing within owing
    have counted : m.instructionsRun ≤ (spendDelay env m).2.excused.instructionsRun :=
      (stepwise_counted within _).mirrors_spendDelay.keeps.related m (Nat.le_refl _)
    have polls := spent.run_pollInterrupts env
    have awake : (spendDelay env m).2.excused.sleeping = false := spent.awake
    have stepped : (step env).run m = (finishStep env true).run (spendDelay env m).2.excused := by
      rw [step_eq, run_stepPolling, if_neg stopped, Attempt.run_bind, run_orBreak, polls]
    rw [stepped] at survives ⊢
    obtain ⟨fetched, flash, fetches, ended⟩ := finishStep_of_due within ⟨rfl, rfl⟩ awake survives
    have executes : executes? env m = Flash.delivered? fetched := by
      rw [executes?, if_neg stopped, polls]
      dsimp only
      rw [awake, fetches]
      rfl
    rw [executes]
    rcases ended with paused | ⟨i, delivers, counts, after⟩
    · exact .inl paused
    · exact .inr ⟨i, delivers, Nat.lt_of_le_of_lt counted counts, after⟩

/-! ### Runs after a return -/

/-- What may happen to a machine: a step that does not fail, or any operation that neither steps nor
resets it. -/
inductive Continues (env : Environment World) (m : Machine World) : Machine World → Prop where
  | step (survives : isFatal ((step env).run m).1 = false) : Continues env m ((step env).run m).2
  | act (act : Action World Unit) (steady : Action.Respects Steady act) : Continues env m (act m).2

/-- An instruction is owed as long as none was executed. -/
theorem owing_of_continues (within : env.Within Steady) (owing : m.Owing) {last : Machine World}
    (run : Relation.ReflTransGen (Continues env) m last) :
    m.instructionsRun < last.instructionsRun ∨
      (last.Owing ∧ m.instructionsRun ≤ last.instructionsRun) := by
  induction run with
  | refl => exact .inr ⟨owing, Nat.le_refl _⟩
  | tail _ move inductionHypothesis =>
      cases move with
      | act act steady =>
          have after := steady.related ‹Machine World›
          rw [after.counted]
          exact inductionHypothesis.imp_right fun ⟨owing, counted⟩ =>
            ⟨(lasting_owing within).steady _ _ after owing, counted⟩
      | step survives =>
          rcases inductionHypothesis with counted | ⟨owing, counted⟩
          · exact .inl (Nat.lt_of_lt_of_le counted (counted_step within _))
          · rcases owing_step within owing survives with ⟨_, still⟩ | ⟨_, _, counts, _⟩
            · exact .inr ⟨still, Nat.le_trans counted (counted_step within _)⟩
            · exact .inl (Nat.lt_of_le_of_lt counted counts)

/-- A machine whose check is due dispatches the lowest vector that is pending. -/
theorem Due.dispatched (within : env.Within Steady) (due : m.Due) (running : m.state ≠ .stopped)
    (allowed : (spendDelay env m).2.status.i = true) {pending : Nat}
    (isPending : (spendDelay env m).2.interrupts.table.isPending pending = true) :
    ∃ vector ≤ pending, (spendDelay env m).2.interrupts.table.isPending vector = true ∧
      (∀ lower < vector, (spendDelay env m).2.interrupts.table.isPending lower = false) ∧
      dispatched? env m = some (vector, (takeCheck (spendDelay env m).2).1) := by
  have spent : (spendDelay env m).2.Due :=
    ((lasting_due within).stepwise fun _ due =>
      ⟨due.settled, due.alert⟩).mirrors_spendDelay.keeps.related m due
  obtain ⟨vector, bound, offered, first, lowest⟩ := Table.exists_first isPending
  refine ⟨vector, bound, first, lowest, ?_⟩
  have checks : (takeCheck (spendDelay env m).2).2 = true := by
    rw [takeCheck, spent.alert]
    rfl
  have settled : (takeCheck (spendDelay env m).2).1.justReturned = false := spent.settled
  have flag : (takeCheck (spendDelay env m).2).1.status.i = true := allowed
  have table : (takeCheck (spendDelay env m).2).1.interrupts.table.first? = some vector := offered
  rw [dispatched?, if_neg running]
  dsimp only
  rw [checks, settled, flag, table]
  rfl

/-- After a step that executed a return from a handler no vector is dispatched before another
instruction has run, however the run goes on: with steps that pause at breakpoints, events, delays
and operations in between.

Unless the first instruction that runs is a return as well, whatever vectors are pending at the check
that follows it, with interrupts allowed, the lowest of them is dispatched there. -/
theorem one_instruction_after_return (within : env.Within Steady)
    (returns : executes? env m = some (.control .reti))
    (survives : isFatal ((step env).run m).1 = false) {last : Machine World}
    (run : Relation.ReflTransGen (Continues env) ((step env).run m).2 last) :
    ((dispatched? env last).isSome = true →
        ((step env).run m).2.instructionsRun < last.instructionsRun) ∧
      (last.instructionsRun = ((step env).run m).2.instructionsRun →
        ∀ i, executes? env last = some i → isFatal ((step env).run last).1 = false →
          last.instructionsRun < ((step env).run last).2.instructionsRun ∧
          (i ≠ .control .reti → ∀ checked, Steady ((step env).run last).2 checked →
            checked.state ≠ .stopped → (spendDelay env checked).2.status.i = true →
            ∀ pending, (spendDelay env checked).2.interrupts.table.isPending pending = true →
              ∃ vector ≤ pending,
                (spendDelay env checked).2.interrupts.table.isPending vector = true ∧
                (∀ lower < vector,
                  (spendDelay env checked).2.interrupts.table.isPending lower = false) ∧
                dispatched? env checked =
                  some (vector, (takeCheck (spendDelay env checked).2).1))) := by
  have owing := owing_of_return within returns survives
  have reached := owing_of_continues within owing run
  constructor
  · intro dispatches
    rcases reached with counted | ⟨still, _⟩
    · exact counted
    · rw [still.undispatched within] at dispatches
      cases dispatches
  · intro same i executes completes
    have still : last.Owing := by
      rcases reached with counted | ⟨still, _⟩
      · exact absurd same (Nat.ne_of_gt counted)
      · exact still
    rcases owing_step within still completes with ⟨none, _⟩ | ⟨i', executes', counts, after⟩
    · rw [none] at executes
      cases executes
    · obtain rfl : i' = i := Option.some.inj (executes'.symm.trans executes)
      refine ⟨counts, fun other checked steady running allowed pending isPending => ?_⟩
      exact ((lasting_due within).steady _ _ steady (after other)).dispatched within running allowed isPending

/-! ### A breakpoint after a return -/

/-- A machine in a handler that was called from the first word, with a breakpoint on the second, and
about to return there. -/
def returning : Machine Unit :=
  let program := Program.ofInstrs [.relative true 1, .control .nop, .control .reti]
  let called := Prod.snd <| (do
    loadProgram program
    enableInterrupt silence 1 : Attempt Unit Unit).run (new smallPart ⟨.known 0, false, false⟩ ())
  let handling := ((step silence).run called).2
  { handling with flash := handling.flash.apply (.insertBreakpoint 2) }

def postFirst : Action Unit Unit := do
  let _ ← (setPosted silence 1 true).run

theorem steady_postFirst : Action.Respects Steady postFirst :=
  .bind (steady_setPosted within_silence 1 true).run fun _ => .pure _

/-- What is posted after the return is dispatched neither by the step that pauses at the breakpoint
nor by the one that runs the instruction, but by the next. -/
theorem one_instruction_after_return_breakpoint :
    let posted := (postFirst ((step silence).run returning).2).2
    let paused := ((step silence).run posted).2
    let checked := ((step silence).run paused).2
    executes? silence posted = none ∧ (dispatched? silence paused).isSome = false ∧
      paused.instructionsRun < checked.instructionsRun ∧
      ∃ vector ≤ 1,
        (spendDelay silence checked).2.interrupts.table.isPending vector = true ∧
        (∀ lower < vector, (spendDelay silence checked).2.interrupts.table.isPending lower = false) ∧
        dispatched? silence checked =
          some (vector, (takeCheck (spendDelay silence checked).2).1) := by
  intro posted paused checked
  have run : Relation.ReflTransGen (Continues silence) ((step silence).run returning).2 paused :=
    .head (.act postFirst steady_postFirst) (.single (.step (by decide +kernel)))
  have later := (one_instruction_after_return within_silence (by decide +kernel) (by decide +kernel)
    run).2 (by decide +kernel) (.control .nop) (by decide +kernel) (by decide +kernel)
  obtain ⟨counts, dispatches⟩ := later
  refine ⟨by decide +kernel, by decide +kernel, counts, ?_⟩
  exact dispatches (by decide) checked (refl_of Steady checked) (by decide +kernel)
    (by decide +kernel) 1 (by decide +kernel)

end Avr.Machine

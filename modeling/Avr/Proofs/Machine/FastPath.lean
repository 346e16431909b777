import Avr.Proofs.Machine.Vigilance

/-!
Contract: skipping the interrupt check never changes what a machine does.

Owns:
- the step that always makes the check, as a reference;
- runs of steps and operations in any order, up to the first fatal error;
- equality of all runs with those of the reference;
- the vector that a check dispatches.
-/

namespace Avr.Machine

open Avr.Isa

variable {World : Type} {env : Environment World} {m : Machine World}

/-! ### The reference -/

/-- The interrupt check, never skipped. -/
def pollAlways (env : Environment World) : Attempt World Bool := do
  let _ ← answer takeCheck
  checkInterrupts env true

/-- The step that always makes the interrupt check. -/
def stepAlways (env : Environment World) : Stepping World Unit :=
  stepPolling env (pollAlways env)

/-- A check that is skipped would have changed nothing. -/
theorem run_checkInterrupts_of_quiet (quiet : m.Quiet) (check : Bool) :
    (checkInterrupts env check).run m = (.ok false, m) := by
  rw [checkInterrupts, Attempt.run_bind, Attempt.run_get]
  cases check with
  | false => rfl
  | true =>
      have settled : m.justReturned = false := quiet.settled
      cases allowed : m.status.i with
      | false =>
          simp only [settled, allowed]
          rfl
      | true =>
          have none := Interrupt.Table.first?_eq_none_iff.mpr (quiet.idle allowed)
          simp only [settled, allowed, none]
          rfl

theorem run_pollInterrupts (vigilant : m.Vigilant) :
    (pollInterrupts env).run m = (pollAlways env).run m := by
  have always : (pollAlways env).run m = (checkInterrupts env true).run (takeCheck m).1 := rfl
  rw [run_pollInterrupts_eq_check, always]
  cases check : (takeCheck m).2 with
  | true => rfl
  | false =>
      have quiet := quiet_takeCheck vigilant check
      rw [run_checkInterrupts_of_quiet quiet, run_checkInterrupts_of_quiet quiet]

theorem run_step (tame : env.Tame) (vigilant : m.Vigilant) :
    (step env).run m = (stepAlways env).run m := by
  have spent : (spendDelay env m).2.Vigilant := (watchful_spendDelay tame).related m vigilant
  rw [step_eq, stepAlways, run_stepPolling, run_stepPolling, Attempt.run_bind, Attempt.run_bind,
    run_orBreak, run_orBreak, run_pollInterrupts spent]

/-! ### Runs -/

/-- What is done to a machine from outside. -/
inductive Call (World : Type) where
  | step
  /-- Any operation that neither steps the machine nor replaces its interrupt table. -/
  | routine (act : Action World Unit) (tame : act.Tame)

def isFatal : Except Break Unit → Bool
  | .error (.failed _) => true
  | _ => false

/-- The results of the steps of a run and the machine it leaves. A fatal error ends the run. -/
def replay (stepper : Stepping World Unit) :
    List (Call World) → Machine World → List (Except Break Unit) × Machine World
  | [], m => ([], m)
  | .routine act _ :: rest, m => replay stepper rest (act m).2
  | .step :: rest, m =>
    let (result, next) := stepper.run m
    if isFatal result then
      ([result], next)
    else
      let (results, last) := replay stepper rest next
      (result :: results, last)

theorem vigilant_new (part : Part) (settings : Settings) (world : World) :
    (new part settings world).Vigilant where
  table := Interrupt.Table.sound_new _
  flash := Flash.agrees_apply (Flash.sound_new part.flashSize).agrees .rearm
  watch := .inl (.inl rfl)

theorem vigilant_step (tame : env.Tame) (vigilant : m.Vigilant) {result : Except Break Unit}
    {next : Machine World} (ran : (step env).run m = (result, next))
    (survives : isFatal result = false) : next.Vigilant := by
  cases result with
  | ok value => exact (ensures_step tame).completed m value next vigilant ran
  | error broken =>
      refine (ensures_step tame).failed m broken next vigilant ran ?_
      rintro fault rfl
      cases survives

theorem replay_eq (tame : env.Tame) (calls : List (Call World)) (vigilant : m.Vigilant) :
    replay (step env) calls m = replay (stepAlways env) calls m := by
  induction calls generalizing m with
  | nil => rfl
  | cons call rest inductionHypothesis =>
      cases call with
      | routine act tameAct => exact inductionHypothesis (tameAct.watchful.related m vigilant)
      | step =>
          -- Both steps leave the same machine, which is vigilant again unless the step failed.
          simp only [replay]
          rw [← run_step tame vigilant]
          rcases ran : (step env).run m with ⟨result, next⟩
          cases survives : isFatal result with
          | true => simp only [survives, if_true]
          | false =>
              have same := inductionHypothesis (vigilant_step tame vigilant ran survives)
              simp only [same]

theorem vigilant_replay (tame : env.Tame) (calls : List (Call World)) (vigilant : m.Vigilant)
    {results : List (Except Break Unit)} {last : Machine World}
    (ran : replay (step env) calls m = (results, last))
    (survives : ∀ result ∈ results, isFatal result = false) : last.Vigilant := by
  induction calls generalizing m results with
  | nil =>
      cases ran
      exact vigilant
  | cons call rest inductionHypothesis =>
      cases call with
      | routine act tameAct =>
          exact inductionHypothesis (tameAct.watchful.related m vigilant) ran survives
      | step =>
          simp only [replay] at ran
          rcases stepped : (step env).run m with ⟨result, next⟩
          rw [stepped] at ran
          cases fatal : isFatal result with
          | true =>
              simp only [fatal, if_true, Prod.mk.injEq] at ran
              rw [survives result (by simp [← ran.1])] at fatal
              cases fatal
          | false =>
              simp only [fatal, Bool.false_eq_true, if_false, Prod.mk.injEq] at ran
              obtain ⟨rfl, rfl⟩ := ran
              refine inductionHypothesis (vigilant_step tame vigilant stepped fatal) rfl ?_
              exact fun other member => survives other (List.mem_cons_of_mem result member)

/-! ### Dispatches -/

/-- The rest of a step whose check finds a vector. -/
theorem run_checked_of_first (vigilant : m.Vigilant) (settled : m.justReturned = false)
    (allowed : m.status.i = true) {vector : Nat}
    (offered : m.interrupts.table.first? = some vector) :
    (orBreak (pollInterrupts env) >>= finishStep env).run m =
      (do orBreak (dispatch env vector); finishStep env false : Stepping World Unit).run
        (takeCheck m).1 := by
  have checked : (pollAlways env).run m = (checkInterrupts env true).run (takeCheck m).1 := rfl
  have dispatched : (checkInterrupts env true).run (takeCheck m).1 =
      (do dispatch env vector; return false : Attempt World Bool).run (takeCheck m).1 :=
    run_checkInterrupts_of_first (m := (takeCheck m).1) settled allowed offered
  exact run_finishStep_of_dispatch
    ((run_pollInterrupts vigilant).trans (checked.trans dispatched))

/-- No run can tell a machine that skips interrupt checks from one that makes them all: every step
has the same result and leaves the same machine.

In particular a step that reaches its check with interrupts allowed, some vector pending and no
dispatch put off dispatches the lowest pending vector. -/
theorem skipped_checks_change_nothing {env : Environment World} (tame : env.Tame) (part : Part)
    (settings : Settings) (world : World) (calls : List (Call World)) :
    let start := new part settings world
    replay (step env) calls start = replay (stepAlways env) calls start ∧
      ∀ results m, replay (step env) calls start = (results, m) →
        (∀ result ∈ results, isFatal result = false) → m.state ≠ .stopped →
        let reached := (spendDelay env m).2
        reached.status.i = true → reached.justReturned = false →
        ∀ pending, reached.interrupts.table.isPending pending = true →
          ∃ vector ≤ pending, reached.interrupts.table.isPending vector = true ∧
            (∀ lower < vector, reached.interrupts.table.isPending lower = false) ∧
            (step env).run m =
              (do orBreak (dispatch env vector); finishStep env false : Stepping World Unit).run
                (takeCheck reached).1 := by
  intro start
  have vigilant := vigilant_new part settings world
  refine ⟨replay_eq tame calls vigilant, ?_⟩
  intro results m ran survives running reached allowed settled pending isPending
  have before : m.Vigilant := vigilant_replay tame calls vigilant ran survives
  have spent : reached.Vigilant := (watchful_spendDelay tame).related m before
  obtain ⟨vector, bound, offered, first, lowest⟩ := Interrupt.Table.exists_first isPending
  refine ⟨vector, bound, first, lowest, ?_⟩
  rw [step_eq, run_stepPolling, if_neg running]
  exact run_checked_of_first spent settled allowed offered

def silence : Environment Unit where
  note _ world := world
  readOutside _ _ _ blank world := (blank, world)
  writeOutside _ _ _ _ world := world
  notify _ _ := return
  readDevice _ := return 0
  writeDevice _ _ := return
  readDeviceBit _ _ := return false
  writeDeviceBit _ _ _ := return
  patience := 2

theorem tame_silence : silence.Tame where
  notify _ _ := .pure _
  readDevice _ := .pure _
  writeDevice _ _ := .pure _
  readDeviceBit _ _ := .pure _
  writeDeviceBit _ _ _ := .pure _

theorem unschedule_silence (event : Time.Event) (m : Machine Unit) :
    (unschedule silence event m).2 =
      m.setQueue (m.clock.queue.removeMatching fun queued => queued = event) := by
  rw [unschedule]
  change ((if _ then _ else _ : Action Unit Bool) _).2 = _
  split <;> rfl

/-- An environment in which every event posts the first vector. -/
def postingEvents : Environment Unit :=
  { silence with
    notify := fun _ hook => do
      if hook = .event then
        let _ ← (postInterrupt silence 1).run }

theorem tame_postingEvents : postingEvents.Tame where
  notify _ hook := by
    unfold postingEvents
    dsimp only
    split
    · exact .bind (tame_postInterrupt tame_silence 1).run fun _ => .pure _
    · exact .pure _
  readDevice _ := .pure _
  writeDevice _ _ := .pure _
  readDeviceBit _ _ := .pure _
  writeDeviceBit _ _ _ := .pure _

def smallPart : Part :=
  { Part.atmega128 with sramSize := 8, flashSize := 16, interruptCount := 2 }

/-- Interrupts are allowed, and an event comes in the middle of the step. -/
def eventDuringStep : List (Call Unit) :=
  let attempted (act : Attempt Unit Unit) (tame : act.Tame) : Call Unit :=
    .routine (do let _ ← act.run) (.bind tame.run fun _ => .pure _)
  let nops := Program.ofInstrs [.control .nop, .control .nop, .control .nop]
  [attempted (loadProgram nops) (tame_loadProgram nops),
    attempted (enableInterrupt postingEvents 1) (tame_enableInterrupt tame_postingEvents 1),
    .routine (enableInterrupts postingEvents) (tame_enableInterrupts tame_postingEvents),
    .routine (schedule postingEvents (.outside ⟨0⟩) 1) (tame_schedule _ _),
    .step]

/-- The event's vector is dispatched by the next step. -/
theorem skipped_checks_change_nothing_event_during_step :
    let start := new smallPart ⟨.known 0, false, false⟩ ()
    let ran := replay (step postingEvents) eventDuringStep start
    let reached := (spendDelay postingEvents ran.2).2
    ran = replay (stepAlways postingEvents) eventDuringStep start ∧
      ∃ vector ≤ 1, reached.interrupts.table.isPending vector = true ∧
        (∀ lower < vector, reached.interrupts.table.isPending lower = false) ∧
        (step postingEvents).run ran.2 =
          (do orBreak (dispatch postingEvents vector); finishStep postingEvents false :
            Stepping Unit Unit).run (takeCheck reached).1 := by
  intro start ran reached
  obtain ⟨same, dispatches⟩ := skipped_checks_change_nothing tame_postingEvents smallPart
    ⟨.known 0, false, false⟩ () eventDuringStep
  refine ⟨same, ?_⟩
  exact dispatches ran.1 ran.2 (Prod.eta ran).symm (by decide +kernel) (by decide +kernel)
    (by decide +kernel) (by decide +kernel) 1 (by decide +kernel)

end Avr.Machine

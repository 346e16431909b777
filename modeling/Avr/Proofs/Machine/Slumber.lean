import Avr.Proofs.Machine.Control
import Avr.Proofs.Machine.Dispatch
import Avr.Proofs.Machine.FastPath
import Avr.Proofs.Machine.Passing

/-!
Contract: sleeping to the next event comes to the same as sleeping cycle by cycle.

Owns:
- an advance of the clock in two parts, of which the first brings nothing;
- the step that sleeps for a single cycle, as a reference;
- machines that sleep and that no interrupt can wake yet;
- as many steps of the reference as the step sleeps cycles.

Why the parts need not be looked at together: until the last of the cycles no event is due, so
nothing outside of the machine is called.
-/

namespace Avr

namespace Time.DeltaQueue

universe u

variable {α : Type u} {q : DeltaQueue α} {head : Link α} {rest : List (Link α)}
  {cycles count budget : Nat}

theorem popDue_of_lt (ahead : budget < head.delta) :
    popDue ⟨head :: rest, count, budget⟩ =
      (none, ⟨{ head with delta := head.delta - budget } :: rest, count + budget, 0⟩) :=
  if_neg (Nat.not_le.mpr ahead)

theorem popDue_of_le (due : head.delta ≤ budget) :
    popDue ⟨head :: rest, count, budget⟩ =
      (some head.events, ⟨rest, count + head.delta, budget - head.delta⟩) :=
  if_pos due

/-- Nothing is handed out before the first event is due, and the event comes closer. -/
theorem popDue_advance_of_lt (early : ∀ delta, q.headDelta? = some delta → cycles < delta) :
    (q.advance cycles).popDue.1 = none ∧
      (q.advance cycles).popDue.2.headDelta? = q.headDelta?.map (· - cycles) := by
  obtain ⟨links, count, budget⟩ := q
  cases links with
  | nil => exact ⟨rfl, rfl⟩
  | cons head rest =>
      have before : cycles < head.delta - budget := early _ rfl
      have ahead : budget + cycles < head.delta := by omega
      rw [advance, popDue_of_lt ahead]
      refine ⟨rfl, congrArg some ?_⟩
      show head.delta - (budget + cycles) - 0 = head.delta - budget - cycles
      omega

/-- Cycles that bring nothing may be granted one after the other. -/
theorem popDue_advance_add (nothing : (q.advance cycles).popDue.1 = none) (more : Nat) :
    ((q.advance cycles).popDue.2.advance more).popDue = (q.advance (cycles + more)).popDue := by
  obtain ⟨links, count, budget⟩ := q
  cases links with
  | nil =>
      show (none, (⟨[], count + (budget + cycles) + (0 + more), 0⟩ : DeltaQueue α)) =
        (none, ⟨[], count + (budget + (cycles + more)), 0⟩)
      rw [Nat.zero_add, Nat.add_assoc, Nat.add_assoc]
  | cons head rest =>
      by_cases early : head.delta ≤ budget + cycles
      · rw [advance, popDue_of_le early] at nothing
        cases nothing
      · have ahead : budget + cycles < head.delta := Nat.not_le.mp early
        show ((popDue ⟨head :: rest, count, budget + cycles⟩).2.advance more).popDue =
          popDue ⟨head :: rest, count, budget + (cycles + more)⟩
        rw [popDue_of_lt ahead]
        show popDue ⟨{ head with delta := head.delta - (budget + cycles) } :: rest,
          count + (budget + cycles), 0 + more⟩ = _
        by_cases due : head.delta ≤ budget + (cycles + more)
        · rw [popDue_of_le due, popDue_of_le (by dsimp only; omega)]
          congr 2 <;> dsimp only <;> omega
        · rw [popDue_of_lt (Nat.not_le.mp due), popDue_of_lt (by dsimp only; omega)]
          have closer : head.delta - (budget + cycles) - (0 + more) =
              head.delta - (budget + (cycles + more)) := by omega
          have counted : count + (budget + cycles) + (0 + more) =
              count + (budget + (cycles + more)) := by omega
          rw [closer, counted]

end Time.DeltaQueue

namespace Machine

variable {World : Type} {env : Environment World} {m : Machine World}

/-- What is delivered depends on no more of a queue than what it hands out. -/
theorem deliver_congr {queue queue' : Time.DeltaQueue Time.Event}
    (same : queue.popDue = queue'.popDue) (bound : Nat) :
    deliver env (bound + 1) (m.setQueue queue) = deliver env (bound + 1) (m.setQueue queue') := by
  have granted (queue : Time.DeltaQueue Time.Event) : (m.setQueue queue).clock.queue = queue := rfl
  have again (queue rest : Time.DeltaQueue Time.Event) :
      (m.setQueue queue).setQueue rest = m.setQueue rest := rfl
  rw [deliver_succ, deliver_succ, granted, granted, same]
  simp only [again]

/-- An advance may be made in two parts if the first brings nothing. -/
theorem advance_add (patient : 0 < env.patience) {cycles : Nat}
    (nothing : (m.clock.queue.advance cycles).popDue.1 = none) (more : Nat) :
    advance env more (m.setQueue (m.clock.queue.advance cycles).popDue.2) =
      advance env (cycles + more) m := by
  obtain ⟨bound, isBound⟩ := Nat.exists_eq_succ_of_ne_zero (Nat.ne_of_gt patient)
  show deliver env env.patience
      (m.setQueue ((m.clock.queue.advance cycles).popDue.2.advance more)) =
    deliver env env.patience (m.setQueue (m.clock.queue.advance (cycles + more)))
  rw [isBound]
  exact deliver_congr (Time.DeltaQueue.popDue_advance_add nothing more) bound

/-! ### The reference -/

/-- What follows the check, with what a sleeping machine does. -/
def finishSleeping (env : Environment World) (sleep : Action World Unit) (owed : Bool) :
    Stepping World Unit := do
  if (← get).sleeping then
    sleep
  else
    stepInstruction env owed
  takeHalt

/-- The step, with what a sleeping machine does. -/
def stepSleeping (env : Environment World) (sleep : Action World Unit) : Stepping World Unit := do
  if (← get).state = .stopped then
    throw .stopped
  spendDelay env
  finishSleeping env sleep (← orBreak (pollInterrupts env))

/-- Sleep for one cycle, whatever is queued. -/
def sleepOnce (env : Environment World) : Action World Unit := do
  advance env 1
  modify fun m => { m with innerLoop := false }

/-- The step that sleeps cycle by cycle. -/
def stepSlowly (env : Environment World) : Stepping World Unit :=
  stepSleeping env (sleepOnce env)

theorem step_eq_stepSleeping (env : Environment World) :
    step env = stepSleeping env (sleepOn env) := rfl

theorem run_stepSleeping (sleep : Action World Unit) (running : m.state ≠ .stopped) :
    (stepSleeping env sleep).run m =
      (orBreak (pollInterrupts env) >>= finishSleeping env sleep).run (spendDelay env m).2 := by
  rw [stepSleeping, Attempt.run_bind, Attempt.run_get]
  simp only [running, if_false]
  rfl

theorem run_stepSleeping_of_stopped (sleep : Action World Unit) (stopped : m.state = .stopped) :
    (stepSleeping env sleep).run m = (.error .stopped, m) := by
  rw [stepSleeping, Attempt.run_bind, Attempt.run_get]
  simp only [stopped, if_true]
  rfl

/-- A machine that is awake after the check does not sleep. -/
theorem run_finishSleeping_of_awake (awake : m.sleeping = false) (sleep : Action World Unit)
    (owed : Bool) : (finishSleeping env sleep owed).run m = (finishStep env owed).run m := by
  rw [finishSleeping, finishStep, Attempt.run_bind, Attempt.run_bind, Attempt.run_get]
  simp only [awake, Bool.false_eq_true, if_false]

theorem run_takeHalt_of_none (unhalted : m.halt = none) :
    (takeHalt : Stepping World Unit).run m = (.ok (), m) := by
  have same : { m with halt := none } = m := by rw [← unhalted]
  rw [run_takeHalt, same, unhalted]
  rfl

/-- If the check leaves the machine awake, it does not matter how it would sleep. -/
theorem run_stepSleeping_of_awake (running : m.state ≠ .stopped)
    (awake : ∀ owed reached, (pollInterrupts env).run (spendDelay env m).2 = (.ok owed, reached) →
      reached.sleeping = false) (sleep : Action World Unit) :
    (stepSleeping env sleep).run m = (step env).run m := by
  rw [step_eq_stepSleeping, run_stepSleeping _ running, run_stepSleeping _ running,
    Attempt.run_bind, Attempt.run_bind, run_orBreak]
  rcases polls : (pollInterrupts env).run (spendDelay env m).2 with ⟨fault | owed, reached⟩
  · rfl
  · show (finishSleeping env sleep owed).run reached =
      (finishSleeping env (sleepOn env) owed).run reached
    rw [run_finishSleeping_of_awake (awake owed reached polls),
      run_finishSleeping_of_awake (awake owed reached polls)]

/-! ### Machines that sleep on -/

/-- A machine that sleeps between two steps, and that no interrupt can wake. -/
structure Dozing (m : Machine World) : Prop where
  asleep : m.sleeping = true
  running : m.state ≠ .stopped
  prompt : m.delayCycles = 0
  unhalted : m.halt = none
  idle : m.status.i = false ∨ m.interrupts.table.pending = 0
  alert : m.innerLoop = false
  settled : m.justReturned = false

/-- The machine after a cycle in which nothing happens. -/
def waited (m : Machine World) : Machine World :=
  let checked := { m.setTable { m.interrupts.table with stale := false } with innerLoop := false }
  checked.setQueue (m.clock.queue.advance 1).popDue.2

theorem Dozing.run_stepSleeping (dozing : m.Dozing) (sleep : Action World Unit) :
    (stepSleeping env sleep).run m =
      (takeHalt : Stepping World Unit).run (sleep (takeCheck m).1).2 := by
  have check : (takeCheck m).2 = true := by
    rw [takeCheck, dozing.alert]
    rfl
  have quiet : (takeCheck m).1.Quiet :=
    ⟨dozing.settled, fun allowed => dozing.idle.resolve_left (Bool.not_eq_false _ ▸ allowed)⟩
  have asleep : (takeCheck m).1.sleeping = true := dozing.asleep
  rw [Machine.run_stepSleeping sleep dozing.running, spendDelay_of_prompt dozing.prompt,
    Attempt.run_bind, run_orBreak, run_pollInterrupts_eq_check, run_checkInterrupts_of_quiet quiet]
  show (finishSleeping env sleep false).run (takeCheck m).1 = _
  rw [finishSleeping, Attempt.run_bind, Attempt.run_get]
  simp only [asleep]
  rfl

theorem Dozing.dispatched? (dozing : m.Dozing) : dispatched? env m = none := by
  rw [Machine.dispatched?, if_neg dozing.running, spendDelay_of_prompt dozing.prompt]
  dsimp only
  split
  next due =>
    have allowed : m.status.i = true := (Bool.and_eq_true_iff.mp due).2
    have none : m.interrupts.table.pending = 0 :=
      dozing.idle.resolve_left (Bool.not_eq_false _ ▸ allowed)
    rw [Option.map_eq_none_iff]
    exact Interrupt.Table.first?_eq_none_iff.mpr none
  next => rfl

theorem Dozing.waited (dozing : m.Dozing) : m.waited.Dozing :=
  ⟨dozing.asleep, dozing.running, dozing.prompt, dozing.unhalted, dozing.idle, rfl, dozing.settled⟩

section Later

variable (later : 1 < m.sleepCycles)
include later

/-- The first event is more than one cycle ahead. -/
theorem early_of_sleepCycles :
    ∃ delta, m.clock.queue.headDelta? = some delta ∧ 1 < delta ∧ m.sleepCycles = delta := by
  have cycles : m.sleepCycles = max (m.clock.queue.headDelta?.getD 1) 1 := rfl
  rw [cycles] at later ⊢
  cases next : m.clock.queue.headDelta? with
  | none =>
      rw [next] at later
      exact absurd later (by decide)
  | some delta =>
      rw [next] at later
      dsimp only [Option.getD_some] at later ⊢
      exact ⟨delta, rfl, by omega, by omega⟩

theorem nothing_of_sleepCycles : (m.clock.queue.advance 1).popDue.1 = none := by
  obtain ⟨delta, next, early, _⟩ := early_of_sleepCycles later
  refine (Time.DeltaQueue.popDue_advance_of_lt fun found isNext => ?_).1
  rw [next] at isNext
  cases isNext
  exact early

theorem sleepCycles_waited : m.sleepCycles = m.waited.sleepCycles + 1 := by
  obtain ⟨delta, next, early, cycles⟩ := early_of_sleepCycles later
  have closer : m.waited.clock.queue.headDelta? = some (delta - 1) := by
    refine (Time.DeltaQueue.popDue_advance_of_lt fun found isNext => ?_).2.trans ?_
    · rw [next] at isNext
      cases isNext
      exact early
    · rw [next]
      rfl
  have waitedCycles : m.waited.sleepCycles = max (m.waited.clock.queue.headDelta?.getD 1) 1 := rfl
  rw [waitedCycles, closer, cycles]
  dsimp only [Option.getD_some]
  omega

variable (patient : 0 < env.patience)
include patient

/-- Long before the next event, a cycle of sleep is nothing but the passing of time. -/
theorem Dozing.waits (dozing : m.Dozing) : (stepSlowly env).run m = (.ok (), m.waited) := by
  have slept : (sleepOnce env (takeCheck m).1).2 = m.waited := by
    have passes : advance env 1 (takeCheck m).1 = _ :=
      advance_of_popDue_eq_none patient (nothing_of_sleepCycles later)
    rw [sleepOnce, Action.apply_bind, passes]
    rfl
  rw [stepSlowly, dozing.run_stepSleeping, slept]
  exact run_takeHalt_of_none dozing.waited.unhalted

/-- What a sleeping machine comes to does not change while it waits. -/
theorem Dozing.run_step_waited (dozing : m.Dozing) :
    (step env).run m.waited = (step env).run m := by
  have advances : advance env m.waited.sleepCycles (takeCheck m.waited).1 =
      advance env m.sleepCycles (takeCheck m).1 := by
    rw [sleepCycles_waited later, Nat.add_comm]
    exact advance_add (m := (takeCheck m).1) patient (nothing_of_sleepCycles later) _
  have slept : (sleepOn env (takeCheck m.waited).1).2 = (sleepOn env (takeCheck m).1).2 :=
    congrArg (fun advanced => { advanced.2 with innerLoop := false }) advances
  rw [step_eq_stepSleeping, dozing.waited.run_stepSleeping, dozing.run_stepSleeping, slept]

end Later

/-! ### As many steps as cycles -/

/-- What a step dispatches, and in which cycle. -/
def dispatches (env : Environment World) (m : Machine World) : List (Nat × Nat) :=
  ((dispatched? env m).map fun (vector, ready) => (vector, ready.cycles)).toList

/-- At most a number of steps, until one does not complete: what they dispatch, the last result, and
the machine they leave. -/
def trace (env : Environment World) (stepper : Stepping World Unit) :
    Nat → Machine World → List (Nat × Nat) × Except Break Unit × Machine World
  | 0, m => ([], .ok (), m)
  | steps + 1, m =>
    match stepper.run m with
    | (.ok (), next) =>
      let (later, ended) := trace env stepper steps next
      (dispatches env m ++ later, ended)
    | (.error broken, next) => (dispatches env m, .error broken, next)

theorem trace_one (stepper : Stepping World Unit) (m : Machine World) :
    trace env stepper 1 m = (dispatches env m, stepper.run m) := by
  rw [trace]
  rcases stepper.run m with ⟨broken | value, next⟩
  · rfl
  · simp only [trace, List.append_nil]

/-- A step that completes without a dispatch leaves the rest to do. -/
theorem trace_succ {stepper : Stepping World Unit} {next : Machine World}
    (ran : stepper.run m = (.ok (), next)) (quiet : dispatched? env m = none) (steps : Nat) :
    trace env stepper (steps + 1) m = trace env stepper steps next := by
  rw [trace, ran, dispatches, quiet]
  rfl

theorem one_le_sleepCycles (m : Machine World) : 1 ≤ m.sleepCycles :=
  Nat.le_max_right _ _

section Doze

variable (patient : 0 < env.patience) (dozing : m.Dozing)
include patient dozing

/-- Before the last of the cycles nothing happens. -/
theorem Dozing.trace_waiting {steps : Nat} (before : steps < m.sleepCycles) :
    trace env (stepSlowly env) steps m = ([], .ok (), Machine.waited^[steps] m) := by
  induction steps generalizing m with
  | zero => rfl
  | succ steps inductionHypothesis =>
      have later : 1 < m.sleepCycles := by omega
      have fewer := sleepCycles_waited later
      rw [trace_succ (dozing.waits later patient) dozing.dispatched?,
        inductionHypothesis dozing.waited (by omega)]
      rfl

/-- The last of the cycles comes to what the step that sleeps them all comes to. -/
theorem Dozing.trace_slowly :
    trace env (stepSlowly env) m.sleepCycles m = trace env (step env) 1 m := by
  rw [trace_one]
  -- On the cycles that are left: with one left both steps sleep the same, and with more the first
  -- step of the reference only waits.
  obtain ⟨cycles, isCycles⟩ := Nat.exists_eq_add_of_le' m.one_le_sleepCycles
  rw [isCycles]
  induction cycles generalizing m with
  | zero =>
      have same : (stepSlowly env).run m = (step env).run m := by
        rw [stepSlowly, step_eq_stepSleeping, dozing.run_stepSleeping, dozing.run_stepSleeping]
        have last : (takeCheck m).1.sleepCycles = 1 := isCycles
        have slept : sleepOn env (takeCheck m).1 = sleepOnce env (takeCheck m).1 := by
          rw [sleepOn, Action.apply_get_bind, last]
          rfl
        rw [slept]
      rw [trace_one, same]
  | succ cycles inductionHypothesis =>
      have later : 1 < m.sleepCycles := by omega
      have fewer := sleepCycles_waited later
      rw [trace_succ (dozing.waits later patient) dozing.dispatched?,
        inductionHypothesis dozing.waited (by omega), dozing.run_step_waited later patient,
        dispatches, dispatches, dozing.dispatched?, dozing.waited.dispatched?]

end Doze

end Machine

end Avr

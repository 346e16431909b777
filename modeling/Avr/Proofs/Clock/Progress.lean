import Avr.Proofs.Clock.Granted
import Avr.Proofs.Machine.Breakpoint

/-!
Contract: every step makes progress, so runs for a number of cycles end.

Owns:
- the cycles of a step, as the delay it spends, the dispatch it makes and the work it does;
- steps that complete let exactly that many cycles pass, and at least one;
- the steps of a run for a number of cycles, how many there are and where the clock stands.

Does not own: callbacks that let time pass on their own account, what they let pass comes on top;
a clock that gets beyond what 64 bits can count.
-/

namespace Avr.Machine

open Avr.Isa

variable {World : Type} (env : Environment World)

/-- Cycles of what a step does on the machine that its check leaves: of sleep up to the next event,
or of the instruction that flash delivers. -/
def workCycles (m : Machine World) : Nat :=
  if m.sleeping then
    m.sleepCycles
  else
    match m.flash.fetch m.pc with
    | .ok (.plain i, flash) => instructionCycles env i (approach env m.pc [] { m with flash })
    | .ok (.probed i own, flash) => instructionCycles env i (approach env m.pc own { m with flash })
    | .ok (.paused, _) | .error _ => 0

/-- Cycles that a step takes. -/
def stepCycles (m : Machine World) : Nat :=
  m.delayCycles + (if (dispatched? env m).isSome then 4 else 0) +
    workCycles env ((pollInterrupts env).run (spendDelay env m).2).2

/-- Whether a step was carried through. It may have been asked to pause at its end. -/
def completed : Except Break Unit → Bool
  | .error (.failed _) | .error (.breakpoint _) => false
  | _ => true

variable {env} {m next : Machine World} {cycle : Nat}

theorem workCycles_of_carries (awake : m.sleeping = false) {fetched : Fetched} {flash : Flash}
    (fetches : m.flash.fetch m.pc = .ok (fetched, flash)) {i : Instr} {own : HandleList}
    (carries : fetched.Carries i own) :
    workCycles env m = instructionCycles env i (approach env m.pc own { m with flash }) := by
  rw [workCycles, awake, fetches]
  cases carries <;> rfl

/-- The check itself leaves the clock alone. -/
theorem clock_undispatched (m : Machine World) : m.undispatched.clock = m.clock := by
  change (if (takeCheck m).2 && (takeCheck m).1.justReturned then
    { (takeCheck m).1 with justReturned := false, innerLoop := false }
    else (takeCheck m).1).clock = _
  split <;> rfl

section Within

variable (within : env.Within Timeless)
include within

/-- The work that follows the check takes its cycles, and at least one. -/
theorem grantedTo_finishStep {owed : Bool} (granted : m.GrantedTo cycle)
    (completes : completed ((finishStep env owed).run m).1 = true) :
    ((finishStep env owed).run m).2.GrantedTo (cycle + workCycles env m) ∧
      1 ≤ workCycles env m := by
  cases asleep : m.sleeping with
  | true =>
      have slept : ((finishStep env owed).run m).2.GrantedTo (cycle + m.sleepCycles) := by
        rw [run_finishStep, if_pos asleep, Attempt.run_bind, Attempt.run_lift]
        dsimp only
        rw [run_takeHalt]
        exact grantedTo_advance within granted m.sleepCycles
      have cycles : workCycles env m = m.sleepCycles := if_pos asleep
      rw [cycles]
      exact ⟨slept, m.one_le_sleepCycles⟩
  | false =>
      have finish := finishes env asleep owed
      generalize (finishStep env owed).run m = ended at finish completes ⊢
      cases finish with
      -- A step that cannot begin its instruction does not complete.
      | refused => cases completes
      | paused => cases completes
      | @executed fetched flash i own fetches carries =>
          rw [workCycles_of_carries asleep fetches carries]
          rw [finishInstruction, Attempt.run_bind, run_orBreak] at completes ⊢
          rcases ran : (runInstruction env m.pc i own).run { m with flash } with
            ⟨fault | value, executed⟩
          · rw [ran] at completes
            cases completes
          · have after : executed.GrantedTo _ :=
              grantedTo_runInstruction (m := { m with flash }) within granted ran
            dsimp only
            rw [run_takeHalt]
            exact ⟨after, one_le_instructionCycles _ _⟩

/-- A step without a dispatch spends its delay and works. -/
theorem grantedTo_step_of_not_dispatched (granted : m.GrantedTo cycle)
    (running : m.state ≠ .stopped) (quiet : dispatched? env m = none)
    (completes : completed ((step env).run m).1 = true) :
    ((step env).run m).2.GrantedTo (cycle + stepCycles env m) ∧ 1 ≤ stepCycles env m := by
  obtain ⟨owed, polls⟩ := run_pollInterrupts_of_not_dispatched running quiet
  have steps : (step env).run m = (finishStep env owed).run (spendDelay env m).2.undispatched := by
    rw [step_eq, run_stepPolling, if_neg running, Attempt.run_bind, run_orBreak, polls]
  have checked : (spendDelay env m).2.undispatched.GrantedTo (cycle + m.delayCycles) := by
    rw [GrantedTo, clock_undispatched]
    exact grantedTo_spendDelay within granted
  have cycles : stepCycles env m =
      m.delayCycles + workCycles env (spendDelay env m).2.undispatched := by
    rw [stepCycles, quiet, polls]
    rfl
  rw [steps] at completes ⊢
  rw [cycles, ← Nat.add_assoc]
  obtain ⟨after, works⟩ := grantedTo_finishStep within checked completes
  exact ⟨after, Nat.le_add_left_of_le works⟩

/-- A step with a dispatch takes four cycles more. -/
theorem grantedTo_step_of_dispatches {vector : Nat} {ready : Machine World}
    (granted : m.GrantedTo cycle) (dispatched : dispatched? env m = some (vector, ready))
    (completes : completed ((step env).run m).1 = true) :
    ((step env).run m).2.GrantedTo (cycle + stepCycles env m) ∧ 1 ≤ stepCycles env m := by
  have dispatches := dispatches_of_dispatched dispatched
  have clock : ready.clock = (spendDelay env m).2.clock :=
    congrArg (fun taken => taken.1.clock) dispatches.checks.symm
  have checked : ready.GrantedTo (cycle + m.delayCycles) := by
    rw [GrantedTo, clock]
    exact grantedTo_spendDelay within granted
  rw [dispatches.run_step, Attempt.run_bind, run_orBreak] at completes ⊢
  rcases ran : (dispatch env vector).run ready with ⟨fault | value, entered⟩
  · rw [ran] at completes
    cases completes
  · have cycles : stepCycles env m = m.delayCycles + 4 + workCycles env entered := by
      rw [stepCycles, dispatched, dispatches.run_pollInterrupts, Attempt.run_bind, ran]
      rfl
    rw [ran] at completes
    rw [cycles, ← Nat.add_assoc, ← Nat.add_assoc]
    obtain ⟨after, works⟩ :=
      grantedTo_finishStep within (grantedTo_dispatch within checked ran) completes
    exact ⟨after, Nat.le_add_left_of_le works⟩

/-- A step that completes takes its cycles. -/
theorem grantedTo_step (granted : m.GrantedTo cycle) (running : m.state ≠ .stopped)
    (completes : completed ((step env).run m).1 = true) :
    ((step env).run m).2.GrantedTo (cycle + stepCycles env m) ∧ 1 ≤ stepCycles env m := by
  rcases dispatched : dispatched? env m with _ | ⟨vector, ready⟩
  · exact grantedTo_step_of_not_dispatched within granted running dispatched completes
  · exact grantedTo_step_of_dispatches within granted dispatched completes

/-- A step that completes lets exactly its cycles pass, once it has delivered everything. -/
theorem cycles_step (spent : m.clock.queue.budget = 0) (running : m.state ≠ .stopped)
    (completes : completed ((step env).run m).1 = true)
    (delivers : ((step env).run m).2.clock.queue.budget = 0) :
    ((step env).run m).2.cycles = m.cycles + stepCycles env m ∧ 1 ≤ stepCycles env m := by
  have reaches {m : Machine World} (spent : m.clock.queue.budget = 0) : m.GrantedTo m.cycles := by
    rw [GrantedTo, Time.DeltaQueue.agenda, spent]
    rfl
  obtain ⟨granted, works⟩ := grantedTo_step within (reaches spent) running completes
  exact ⟨(reaches delivers).symm.trans granted, works⟩

theorem cycles_lt_of_step (spent : m.clock.queue.budget = 0)
    (ran : (step env).run m = (.ok (), next)) (delivers : next.clock.queue.budget = 0) :
    m.cycles < next.cycles := by
  have running : m.state ≠ .stopped := by
    intro stopped
    rw [run_step_of_stopped stopped] at ran
    cases ran
  have takes := cycles_step within spent running
  rw [ran] at takes
  obtain ⟨cycles, works⟩ := takes rfl delivers
  rw [cycles]
  exact Nat.lt_add_of_pos_right works

end Within

/-! ### Runs for a number of cycles -/

/-- What a run for a number of cycles asks before every step. -/
def isBefore (finish : Nat) (_ : Unit) : Action World (Bool × Unit) := do
  return ((← get).cycles < finish, ())

/-- The machines on which the steps of such a run begin. -/
def stepStarts (env : Environment World) (finish : Nat) :
    (bound : Nat) → Machine World → List (Machine World)
  | 0, _ => []
  | bound + 1, m =>
    if m.stopRequested ∨ finish ≤ m.cycles then
      []
    else
      m :: match (step env).run m with
        | (.ok (), next) => stepStarts env finish bound next
        | (.error _, _) => []

/-- Whether the machine says that its last execution was cut short. -/
def hits (m : Machine World) : Bool :=
  m.hitBreakpoint || m.hitBreak || m.hitStop || m.hitTimeout

/-- A run heeds a request to stop, then asks whether to go on, and only then takes a step. -/
theorem runSteps_eq {Memory : Type} (condition : Memory → Action World (Bool × Memory))
    (bound : Nat) (memory : Memory) (m : Machine World) :
    runSteps env condition (bound + 1) memory m =
      if m.stopRequested then
        ((some (.ok .stop), memory), (stop env { m with stopRequested := false }).2)
      else
        match condition memory m with
        | ((false, memory), asked) => ((some (.ok .tripwire), memory), asked)
        | ((true, memory), asked) =>
          match (step env).run asked with
          | (.ok (), next) => runSteps env condition bound memory next
          | (.error broken, next) => ((some broken.verdict, memory), next) := by
  rw [runSteps, Action.apply_get_bind]
  split
  · rfl
  · rw [Action.apply_bind]
    rcases condition memory m with ⟨⟨_ | _, memory⟩, asked⟩
    · rfl
    · dsimp only
      rw [Bool.not_true, if_neg Bool.false_ne_true, Action.apply_bind]
      rcases (step env).run asked with ⟨broken | value, next⟩ <;> rfl

theorem isBefore_apply (finish : Nat) (m : Machine World) :
    isBefore finish () m = ((decide (m.cycles < finish), ()), m) := rfl

theorem runSteps_isBefore (finish bound : Nat) (m : Machine World) :
    runSteps env (isBefore finish) (bound + 1) () m =
      if m.stopRequested then
        ((some (.ok .stop), ()), (stop env { m with stopRequested := false }).2)
      else if m.cycles < finish then
        match (step env).run m with
        | (.ok (), next) => runSteps env (isBefore finish) bound () next
        | (.error broken, next) => ((some broken.verdict, ()), next)
      else
        ((some (.ok .tripwire), ()), m) := by
  rw [runSteps_eq, isBefore_apply]
  by_cases before : m.cycles < finish
  · rw [decide_eq_true before, if_pos before]
  · rw [decide_eq_false before, if_neg before]

/-- As long as a run goes on, the clock has not come to its end. -/
theorem cycles_lt_of_mem_stepStarts {finish bound : Nat} {start : Machine World}
    (member : start ∈ stepStarts env finish bound m) : start.cycles < finish := by
  induction bound generalizing m with
  | zero => cases member
  | succ bound inductionHypothesis =>
      rw [stepStarts] at member
      split at member
      · cases member
      · next goesOn =>
        rcases List.mem_cons.mp member with rfl | later
        · exact Nat.not_le.mp fun reached => goesOn (.inr reached)
        · split at later
          · exact inductionHypothesis later
          · cases later

/-- Everything granted has been delivered, and the clock has counted it within 64 bits. -/
structure UpToDate (m : Machine World) : Prop where
  spent : m.clock.queue.budget = 0
  counted : m.cycles ≤ counterLimit

theorem stepStarts_of_before {finish : Nat} (goesOn : ¬ m.stopRequested = true)
    (before : m.cycles < finish) (bound : Nat) :
    stepStarts env finish (bound + 1) m =
      m :: match (step env).run m with
        | (.ok (), next) => stepStarts env finish bound next
        | (.error _, _) => [] := by
  rw [stepStarts, if_neg (not_or.mpr ⟨goesOn, Nat.not_le.mpr before⟩)]

/-- A run that nothing cuts short goes on until the clock has come to its end. -/
theorem le_cycles_of_runSteps {finish bound : Nat} {pause : Pause} {last : Machine World}
    (upToDate : m.UpToDate)
    (delivers : ∀ start ∈ stepStarts env finish bound m, ((step env).run start).2.UpToDate)
    (ran : runSteps env (isBefore finish) bound () m = ((some (.ok pause), ()), last))
    (unhit : (last.setPause pause).hits = false) : finish ≤ last.cycles ∧ last.UpToDate := by
  induction bound generalizing m with
  | zero => cases ran
  | succ bound inductionHypothesis =>
      rw [runSteps_isBefore] at ran
      split at ran
      · cases ran
        cases unhit
      · next goesOn =>
        split at ran
        · next before =>
          rw [stepStarts_of_before goesOn before] at delivers
          obtain ⟨first, others⟩ := List.forall_mem_cons.mp delivers
          rcases steps : (step env).run m with ⟨broken | value, next⟩ <;>
            rw [steps] at ran first others
          · cases broken <;> cases ran <;> cases unhit
          · exact inductionHypothesis first others ran
        · next reached =>
          cases ran
          exact ⟨Nat.not_lt.mp reached, upToDate⟩

theorem conclude_ne_unfinished {verdict : Option (Except Fault Pause)} (ended : verdict ≠ none)
    (m : Machine World) : (conclude verdict m).1 ≠ .unfinished := by
  rcases verdict with _ | (fault | pause)
  · exact absurd rfl ended
  · exact nofun
  · exact nofun

theorem eq_of_conclude_paused {verdict : Option (Except Fault Pause)}
    (paused : (conclude verdict m).1 = .paused) :
    ∃ pause, verdict = some (.ok pause) ∧ (conclude verdict m).2 = m.setPause pause := by
  rcases verdict with _ | (fault | pause)
  · cases paused
  · cases paused
  · exact ⟨pause, rfl, rfl⟩

section Within

variable (within : env.Within Timeless)
include within

/-- A run comes to its end within as many steps as there are cycles left: every step that is carried
through takes one of them at least. -/
theorem runSteps_ends {finish bound : Nat} (upToDate : m.UpToDate)
    (delivers : ∀ start ∈ stepStarts env finish bound m, ((step env).run start).2.UpToDate) :
    (stepStarts env finish bound m).length ≤ finish - m.cycles ∧
      (finish - m.cycles < bound → (runSteps env (isBefore finish) bound () m).1.1 ≠ none) := by
  induction bound generalizing m with
  | zero => exact ⟨Nat.zero_le _, fun never => absurd never (Nat.not_lt_zero _)⟩
  | succ bound inductionHypothesis =>
      rw [runSteps_isBefore]
      by_cases stop : m.stopRequested = true
      · simp [stepStarts, stop]
      · by_cases before : m.cycles < finish
        · rw [stepStarts_of_before stop before] at delivers ⊢
          rw [if_neg stop, if_pos before]
          obtain ⟨first, others⟩ := List.forall_mem_cons.mp delivers
          rcases steps : (step env).run m with ⟨broken | value, next⟩ <;>
            rw [steps] at first others
          · exact ⟨Nat.sub_pos_of_lt before, fun _ => Option.some_ne_none _⟩
          -- What was left before the step is one more, at least, than what is left after it.
          · have later := cycles_lt_of_step within upToDate.spent steps first.spent
            obtain ⟨few, ends⟩ := inductionHypothesis (m := next) first others
            refine ⟨?_, fun enough => ends (by omega)⟩
            change (stepStarts env finish bound next).length + 1 ≤ finish - m.cycles
            omega
        · simp [stepStarts, stop, before, Nat.not_lt.mp before]

end Within

/-! ### The main result -/

/-- A step that is carried through lets exactly its cycles pass, at least one: the delay it spends,
four if it dispatches an interrupt, and those of its instruction or of its sleep. A run for a number
of cycles therefore ends within that many steps, and unless something else ends it, with the step by
which the clock has advanced that far, or stands at its largest count. The clock keeps within this
count all along. -/
theorem steps_account_for_their_cycles (within : env.Within Timeless) (m : Machine World)
    (upToDate : m.UpToDate) :
    (m.state ≠ .stopped → completed ((step env).run m).1 = true →
      ((step env).run m).2.UpToDate →
        ((step env).run m).2.cycles = m.cycles + stepCycles env m ∧ 1 ≤ stepCycles env m) ∧
    ∀ bound cycles,
      let starts := stepStarts env (m.runEnd cycles) bound (m.setPause .unsuccessful)
      let result := (runCycles env bound cycles m).1
      let last := (runCycles env bound cycles m).2
      (∀ start ∈ starts, ((step env).run start).2.UpToDate) →
        starts.length ≤ cycles ∧
        (cycles < bound → result ≠ .unfinished) ∧
        (∀ start ∈ starts, start.cycles < m.cycles + cycles) ∧
        (result = .paused → last.hits = false →
          m.cycles + cycles ≤ last.cycles ∨ last.cycles = counterLimit) := by
  constructor
  · intro running completes delivers
    exact cycles_step within upToDate.spent running completes delivers.spent
  intro bound cycles starts result last delivers
  have upToDate : (m.setPause .unsuccessful).UpToDate := ⟨upToDate.spent, upToDate.counted⟩
  have finish : m.runEnd cycles ≤ m.cycles + cycles := Nat.min_le_left _ _
  have left : m.runEnd cycles - m.cycles ≤ cycles := Nat.sub_le_iff_le_add'.mpr finish
  obtain ⟨few, ends⟩ := runSteps_ends within upToDate delivers
  refine ⟨few.trans left, fun enough => ?_, fun start member => ?_, fun paused unhit => ?_⟩
  · exact conclude_ne_unfinished (ends (Nat.lt_of_le_of_lt left enough)) _
  · exact Nat.lt_of_lt_of_le (cycles_lt_of_mem_stepStarts member) finish
  · obtain ⟨pause, verdict, reached⟩ := eq_of_conclude_paused paused
    obtain ⟨limit, within64⟩ := le_cycles_of_runSteps upToDate delivers
      (Prod.ext (Prod.ext verdict rfl) rfl) ((congrArg hits reached).symm.trans unhit)
    have ended : min (m.cycles + cycles) counterLimit ≤ last.cycles :=
      limit.trans_eq (congrArg Machine.cycles reached).symm
    have counted : last.cycles ≤ counterLimit :=
      (congrArg Machine.cycles reached).trans_le within64.counted
    omega

theorem timeless_silence : silence.Within Timeless where
  notify _ _ := .pure _
  readDevice _ := .pure _
  writeDevice _ _ := .pure _
  readDeviceBit _ _ := .pure _
  writeDeviceBit _ _ _ := .pure _

theorem timeless_postingEvents : postingEvents.Within Timeless where
  notify _ hook := by
    have posts : Action.Respects Timeless (postInterrupt silence 1).run := .of_mirrors fun _ =>
      ((storing_grantedTo (upholds_grantedTo timeless_silence)).mirrors_setPosted true trivial).run
    unfold postingEvents
    dsimp only
    split
    · exact .bind posts fun _ => .pure _
    · exact .pure _
  readDevice _ := .pure _
  writeDevice _ _ := .pure _
  readDeviceBit _ _ := .pure _
  writeDeviceBit _ _ _ := .pure _

/-- A machine with an instruction that skips two words, on which an event posted an interrupt, and
with a delay outstanding. -/
def interrupted : Machine Unit :=
  let program := Program.ofInstrs
    [.control .nop, .registerBit .sbrc 16 0, .loadDirect 17 0x60, .control .nop]
  let prepared := Prod.snd <| (do
    loadProgram program
    enableInterrupt silence 1 : Attempt Unit Unit).run (new smallPart ⟨.known 0, false, false⟩ ())
  let waiting := Prod.snd <| (do
    enableInterrupts silence
    schedule silence (.outside ⟨0⟩) 1 : Action Unit Unit) prepared
  ((step postingEvents).run waiting).2.delay 5

/-- The delay, the dispatch and an instruction take ten cycles, the skip takes three. -/
theorem steps_account_for_their_cycles_skip :
    let starts := stepStarts postingEvents (interrupted.runEnd 12) 13
      (interrupted.setPause .unsuccessful)
    ((step postingEvents).run interrupted).2.cycles = interrupted.cycles + 10 ∧
      starts.map Machine.cycles = [1, 11] ∧ starts.length ≤ 12 ∧
      (runCycles postingEvents 13 12 interrupted).1 ≠ .unfinished ∧
      interrupted.cycles + 12 ≤ (runCycles postingEvents 13 12 interrupted).2.cycles := by
  intro starts
  have accounts := steps_account_for_their_cycles timeless_postingEvents interrupted
    ⟨by decide +kernel, by decide +kernel⟩
  obtain ⟨first, -⟩ := accounts.1 (by decide +kernel) (by decide +kernel)
    ⟨by decide +kernel, by decide +kernel⟩
  have delivers : ∀ start ∈ starts, ((step postingEvents).run start).2.UpToDate := by
    have both : ∀ start ∈ starts, ((step postingEvents).run start).2.clock.queue.budget = 0 ∧
        ((step postingEvents).run start).2.cycles ≤ counterLimit := by
      decide +kernel
    intro start member
    exact ⟨(both start member).1, (both start member).2⟩
  obtain ⟨few, ends, -, limit⟩ := accounts.2 13 12 delivers
  refine ⟨first.trans (by decide +kernel), by decide +kernel, few, ends (by decide), ?_⟩
  exact (limit (by decide +kernel) (by decide +kernel)).resolve_right (by decide +kernel)

/-- A machine one cycle before the largest count of its clock. -/
def late : Machine Unit :=
  let program := Program.ofInstrs [.control .nop, .control .nop, .control .nop]
  let loaded := ((loadProgram program).run (new smallPart ⟨.known 0, false, false⟩ ())).2
  (advance silence (counterLimit - 1) loaded).2

/-- There a run ends after one cycle, although it was to take five and nothing cut it short. -/
theorem run_ends_at_largest_count :
    let last := (runCycles silence 6 5 late).2
    silence.Within Timeless ∧ late.clock.queue.budget = 0 ∧ last.clock.queue.budget = 0 ∧
      (runCycles silence 6 5 late).1 = .paused ∧ last.hits = false ∧
      ¬ late.cycles + 5 ≤ last.cycles :=
  ⟨timeless_silence, by decide +kernel⟩

end Avr.Machine

import Avr.Proofs.Machine.Marks
import Avr.Proofs.Machine.Slumber

/-!
Contract: runs are the same whether a machine sleeps straight to the next event or cycle by cycle.

Owns:
- the steps of the reference that stand for one step, also where that does something else than to
  sleep;
- runs of steps and operations, with all dispatches and their cycles;
- a run in which an event asks for a delay while another delay is spent, and wakes too late.

A step that goes to sleep with a delay outstanding spends it only after the next event, so what is
posted by that event is dispatched later than if the machine slept for one cycle.
-/

namespace Avr.Machine

variable {World : Type} {env : Environment World} {m : Machine World}

/-! ### One step -/

/-- A step that comes to sleep, without a dispatch before. -/
def Sleeps (env : Environment World) (m : Machine World) : Prop :=
  m.state ≠ .stopped ∧ dispatched? env m = none ∧ (spendDelay env m).2.sleeping = true

instance : Decidable (Sleeps env m) :=
  inferInstanceAs (Decidable (_ ∧ _ ∧ _))

/-- When a step comes to sleep, nothing else is asked for: no stop, no other delay and no pause. -/
def Unhindered (env : Environment World) (m : Machine World) : Prop :=
  Sleeps env m → (spendDelay env m).2.state ≠ .stopped ∧ (spendDelay env m).2.delayCycles = 0 ∧
    (spendDelay env m).2.halt = none

instance : Decidable (Unhindered env m) :=
  inferInstanceAs (Decidable (_ → _ ∧ _ ∧ _))

/-- The steps of the reference that stand for one step: one for each cycle of sleep. -/
def sleepTurns (env : Environment World) (m : Machine World) : Nat :=
  if Sleeps env m then (spendDelay env m).2.sleepCycles else 1

/-- Between two steps, what sleeps and cannot be woken is dozing. -/
theorem Marked.dozing (marked : m.Marked) (asleep : m.sleeping = true)
    (running : m.state ≠ .stopped) (prompt : m.delayCycles = 0) (unhalted : m.halt = none)
    (idle : m.status.i = false ∨ m.interrupts.table.pending = 0) : m.Dozing where
  asleep := asleep
  running := running
  prompt := prompt
  unhalted := unhalted
  idle := idle
  alert := marked.asleep asleep
  settled := marked.settled asleep

/-- If the check of a sleeping machine dispatches nothing, nothing could be dispatched. -/
theorem Marked.idle (marked : (spendDelay env m).2.Marked) (sleeps : Sleeps env m) :
    (spendDelay env m).2.status.i = false ∨ (spendDelay env m).2.interrupts.table.pending = 0 := by
  obtain ⟨running, quiet, asleep⟩ := sleeps
  have check : (takeCheck (spendDelay env m).2).2 = true := by
    rw [takeCheck, marked.asleep asleep]
    rfl
  have settled : (takeCheck (spendDelay env m).2).1.justReturned = false := marked.settled asleep
  rw [dispatched?, if_neg running] at quiet
  dsimp only at quiet
  rw [check, settled] at quiet
  cases allowed : (spendDelay env m).2.status.i with
  | false => exact .inl rfl
  | true =>
      have flag : (takeCheck (spendDelay env m).2).1.status.i = true := allowed
      rw [flag] at quiet
      exact .inr (Interrupt.Table.first?_eq_none_iff.mp (Option.map_eq_none_iff.mp quiet))

/-- Once the delay is spent, it does not matter that there was one. -/
theorem trace_spendDelay (sleep : Action World Unit) (running : m.state ≠ .stopped)
    (goesOn : (spendDelay env m).2.state ≠ .stopped)
    (prompt : (spendDelay env m).2.delayCycles = 0) {steps : Nat} (some : 1 ≤ steps) :
    trace env (stepSleeping env sleep) steps m =
      trace env (stepSleeping env sleep) steps (spendDelay env m).2 := by
  have unspent : (spendDelay env (spendDelay env m).2).2 = (spendDelay env m).2 :=
    spendDelay_of_prompt prompt
  have sameStep : (stepSleeping env sleep).run m =
      (stepSleeping env sleep).run (spendDelay env m).2 := by
    rw [run_stepSleeping sleep running, run_stepSleeping sleep goesOn, unspent]
  have sameDispatches : dispatches env m = dispatches env (spendDelay env m).2 := by
    rw [dispatches, dispatches, dispatched?, dispatched?, if_neg running, if_neg goesOn, unspent]
  obtain ⟨rest, rfl⟩ := Nat.exists_eq_add_of_le' some
  rw [trace, trace, sameStep, sameDispatches]

section Turns

variable (within : env.Within Tranquil)
include within

theorem spent_marked (marked : m.Marked) : (spendDelay env m).2.Marked :=
  ((lasting_marked within).stepwise fun _ marked =>
    ⟨marked.owed, marked.asleep⟩).mirrors_spendDelay.keeps.related m marked

/-- A step that does not come to sleep does not depend on how the machine would sleep. -/
theorem run_stepSleeping_of_not_sleeps (wakes : ¬ Sleeps env m) (sleep : Action World Unit) :
    (stepSleeping env sleep).run m = (step env).run m := by
  by_cases stopped : m.state = .stopped
  · rw [run_stepSleeping_of_stopped sleep stopped, run_step_of_stopped stopped]
  · apply run_stepSleeping_of_awake stopped
    intro owed reached polls
    cases dispatched : dispatched? env m with
    | none =>
        obtain ⟨owed', polls'⟩ := run_pollInterrupts_of_not_dispatched stopped dispatched
        rw [polls'] at polls
        cases polls
        rw [sleeping_undispatched, Bool.eq_false_iff]
        exact fun asleep => wakes ⟨stopped, dispatched, asleep⟩
    | some found =>
        have dispatches := dispatches_of_dispatched dispatched
        rw [dispatches.run_pollInterrupts] at polls
        obtain ⟨value, entered, ran, ended⟩ := Attempt.run_bind_eq_ok polls
        cases ended
        exact ((entered_dispatch within found.1).completed _ _ _ dispatches.settled ran).1

/-- The steps of the reference come to the same as the step that they stand for. -/
theorem trace_sleepTurns (patient : 0 < env.patience) (marked : m.Marked)
    (unhindered : Unhindered env m) :
    trace env (stepSlowly env) (sleepTurns env m) m = trace env (step env) 1 m := by
  rw [sleepTurns]
  by_cases sleeps : Sleeps env m
  · obtain ⟨goesOn, prompt, unhalted⟩ := unhindered sleeps
    have spent := spent_marked within marked
    have dozing : (spendDelay env m).2.Dozing :=
      spent.dozing sleeps.2.2 goesOn prompt unhalted (spent.idle sleeps)
    rw [if_pos sleeps, stepSlowly, step_eq_stepSleeping,
      trace_spendDelay _ sleeps.1 goesOn prompt (one_le_sleepCycles _),
      trace_spendDelay _ sleeps.1 goesOn prompt (Nat.le_refl 1)]
    exact dozing.trace_slowly patient
  · rw [if_neg sleeps, trace_one, trace_one, stepSlowly,
      run_stepSleeping_of_not_sleeps within sleeps]

end Turns

/-! ### Runs -/

/-- What happens to a machine in a run: a step, or any operation that neither steps it nor lets it
fall asleep. -/
inductive Move (World : Type) where
  | step
  | act (act : Action World Unit) (tranquil : Action.Respects Tranquil act)

/-- The dispatches of a run with their cycles, the results of its steps and the machine it leaves. A
fatal error ends the run. -/
def follow (turn : Machine World → List (Nat × Nat) × Except Break Unit × Machine World) :
    List (Move World) → Machine World →
      List (Nat × Nat) × List (Except Break Unit) × Machine World
  | [], m => ([], [], m)
  | .act act _ :: rest, m => follow turn rest (act m).2
  | .step :: rest, m =>
    let (found, result, next) := turn m
    if isFatal result then
      (found, [result], next)
    else
      let (later, results, last) := follow turn rest next
      (found ++ later, result :: results, last)

/-- Nothing hinders any of the steps of a run. -/
def UnhinderedAlong (env : Environment World) : List (Move World) → Machine World → Prop
  | [], _ => True
  | .act act _ :: rest, m => UnhinderedAlong env rest (act m).2
  | .step :: rest, m => Unhindered env m ∧
      (isFatal ((step env).run m).1 = false → UnhinderedAlong env rest ((step env).run m).2)

instance decidableUnhinderedAlong : (moves : List (Move World)) → (m : Machine World) →
    Decidable (UnhinderedAlong env moves m)
  | [], _ => isTrue trivial
  | .act act _ :: rest, m => decidableUnhinderedAlong rest (act m).2
  | .step :: rest, m =>
    have : Decidable (UnhinderedAlong env rest ((step env).run m).2) :=
      decidableUnhinderedAlong rest _
    inferInstanceAs (Decidable (_ ∧ (_ → _)))

section Runs

variable (within : env.Within Tranquil)
include within

theorem marked_follow (moves : List (Move World)) (marked : m.Marked)
    (survives : ∀ result ∈ (follow (trace env (step env) 1) moves m).2.1, isFatal result = false) :
    (follow (trace env (step env) 1) moves m).2.2.Marked := by
  induction moves generalizing m with
  | nil => exact marked
  | cons move rest inductionHypothesis =>
      cases move with
      | act act tranquil =>
          exact inductionHypothesis (marked.tranquil (tranquil.related m)) survives
      | step =>
          simp only [follow, trace_one] at survives ⊢
          cases fatal : isFatal ((step env).run m).1 with
          | true =>
              rw [fatal] at survives
              have first := survives _ (List.mem_cons_self ..)
              rw [fatal] at first
              cases first
          | false =>
              rw [fatal] at survives
              exact inductionHypothesis (marked.step within fatal) fun result member =>
                survives result (List.mem_cons_of_mem _ member)

theorem follow_sleepTurns (patient : 0 < env.patience) (moves : List (Move World))
    (marked : m.Marked) (unhindered : UnhinderedAlong env moves m) :
    follow (fun m => trace env (stepSlowly env) (sleepTurns env m) m) moves m =
      follow (trace env (step env) 1) moves m := by
  induction moves generalizing m with
  | nil => rfl
  | cons move rest inductionHypothesis =>
      cases move with
      | act act tranquil =>
          exact inductionHypothesis (marked.tranquil (tranquil.related m)) unhindered
      | step =>
          simp only [follow]
          rw [trace_sleepTurns within patient marked unhindered.1, trace_one]
          cases survives : isFatal ((step env).run m).1 with
          | true => simp only [if_true]
          | false =>
              have same := inductionHypothesis (marked.step within survives)
                (unhindered.2 survives)
              simp only [same]

/-- A machine that sleeps, and that no interrupt can wake, comes to the same by one step as by one
step of the reference for each cycle of its sleep: until the last of these the clock goes on and
nothing else happens, and the last leaves the same machine in the same world, with the same result.

So a run may take steps of the reference for each step that comes to sleep, unless one does so with
a stop, a delay or a pause outstanding: the results are the same, the machine that is left is the
same, and the same interrupts are dispatched in the same cycles. -/
theorem sleeping_straight_is_sleeping_cycle_by_cycle (patient : 0 < env.patience) (part : Part)
    (settings : Settings) (world : World) (moves : List (Move World)) :
    let start := new part settings world
    let straight := follow (trace env (step env) 1) moves start
    let m := straight.2.2
    ((∀ result ∈ straight.2.1, isFatal result = false) → m.sleeping = true → m.state ≠ .stopped →
        m.delayCycles = 0 → m.halt = none →
        (m.status.i = false ∨ m.interrupts.table.pending = 0) →
        (∀ steps < m.sleepCycles,
          trace env (stepSlowly env) steps m = ([], .ok (), waited^[steps] m)) ∧
        trace env (stepSlowly env) m.sleepCycles m = ([], (step env).run m)) ∧
      (UnhinderedAlong env moves start →
        follow (fun m => trace env (stepSlowly env) (sleepTurns env m) m) moves start =
          straight) := by
  intro start straight m
  constructor
  · intro survives asleep running prompt unhalted idle
    have marked : m.Marked := marked_follow within moves (marked_new part settings world) survives
    have dozing := marked.dozing asleep running prompt unhalted idle
    refine ⟨fun steps before => dozing.trace_waiting patient before, ?_⟩
    rw [dozing.trace_slowly patient, trace_one, dispatches, dozing.dispatched?]
    rfl
  · exact follow_sleepTurns within patient moves (marked_new part settings world)

end Runs

/-! ### An alarm -/

/-- The first event asks for a delay, every other posts the first vector. -/
def alarms : Environment Unit :=
  { silence with
    notify := fun handle hook => do
      if hook = .event then
        if handle = ⟨0⟩ then
          modify fun m => m.delay 10
        else
          let _ ← (setPosted silence 1 true).run }

theorem tranquil_alarms : alarms.Within Tranquil where
  notify handle hook := by
    unfold alarms
    dsimp only
    split
    · split
      · exact .modify fun _ => ⟨id, id, id⟩
      · exact .bind ((steady_setPosted within_silence 1 true).mono fun _ _ => .of_steady).run
          fun _ => .pure _
    · exact .pure _
  readDevice _ := .pure _
  writeDevice _ _ := .pure _
  readDeviceBit _ _ := .pure _
  writeDeviceBit _ _ _ := .pure _

/-- A program that sleeps, with interrupts allowed. -/
def prepare : Action Unit Unit := do
  let _ ← (loadProgram (.ofInstrs
    [.control .sleep, .control .nop, .control .nop, .control .nop])).run
  let _ ← (setEnabled silence 1 true).run
  enableInterrupts silence

theorem tranquil_prepare : Action.Respects Tranquil prepare := by
  have steady : Action.Respects Steady prepare := by
    refine .bind (steady_loadProgram _).run fun _ => ?_
    refine .bind (Attempt.Respects.of_mirrors fun start =>
      (dispatching_steady within_silence start).mirrors_setEnabled true trivial).run fun _ => ?_
    exact .of_mirrors fun start => (dispatching_steady within_silence start).mirrors_enableInterrupts
  exact steady.mono fun _ _ => .of_steady

def alarm (event delay : Nat) : Action Unit Unit :=
  schedule silence (.outside ⟨event⟩) delay

theorem tranquil_alarm (event delay : Nat) : Action.Respects Tranquil (alarm event delay) :=
  .mono (fun _ _ => .of_steady) <| .of_mirrors fun start =>
    (dispatching_steady within_silence start).mirrors_enqueue rfl _

/-- The machine falls asleep. A delay will be asked for, and an interrupt comes later. -/
def nap : List (Move Unit) :=
  [.act prepare tranquil_prepare, .step, .act (alarm 0 3) (tranquil_alarm 0 3),
    .act (alarm 1 20) (tranquil_alarm 1 20)]

def napping : Machine Unit :=
  (follow (trace alarms (step alarms) 1) nap (new smallPart ⟨.known 0, false, false⟩ ())).2.2

/-- The first event comes after three cycles. The delay that it asks for is spent by the next step,
so the interrupt wakes the machine in its own cycle, however the machine sleeps. -/
theorem sleeping_straight_is_sleeping_cycle_by_cycle_alarm :
    let start := new smallPart ⟨.known 0, false, false⟩ ()
    let wakes := nap ++ [.step, .step, .step]
    trace alarms (stepSlowly alarms) napping.sleepCycles napping =
        ([], (step alarms).run napping) ∧
      napping.sleepCycles = 3 ∧
      follow (fun m => trace alarms (stepSlowly alarms) (sleepTurns alarms m) m) wakes start =
        follow (trace alarms (step alarms) 1) wakes start ∧
      (follow (trace alarms (step alarms) 1) wakes start).1 = [(1, 21)] := by
  intro start wakes
  have naps := (sleeping_straight_is_sleeping_cycle_by_cycle tranquil_alarms (by decide) smallPart
    ⟨.known 0, false, false⟩ () nap).1 (by decide +kernel) (by decide +kernel) (by decide +kernel)
    (by decide +kernel) (by decide +kernel) (by decide +kernel)
  refine ⟨naps.2, by decide +kernel, ?_, by decide +kernel⟩
  exact (sleeping_straight_is_sleeping_cycle_by_cycle tranquil_alarms (by decide) smallPart
    ⟨.known 0, false, false⟩ () wakes).2 (by decide +kernel)

/-- If the first event comes while a delay is spent, the step goes on to sleep with the new delay
outstanding, up to the second event. The interrupt is dispatched ten cycles after it is posted. A
machine that slept cycle by cycle would have spent the delay before. -/
theorem delay_within_delay_postpones_waking :
    let delayed := napping.delay 5
    delayed.sleeping = true ∧ delayed.state ≠ .stopped ∧ delayed.halt = none ∧
      delayed.interrupts.table.pending = 0 ∧
      (trace alarms (step alarms) 2 delayed).1 = [(1, 31)] ∧
      (trace alarms (stepSlowly alarms) 6 delayed).1 = [(1, 21)] := by
  decide +kernel

end Avr.Machine

import Avr.Machine.Run
import Avr.Proofs.Machine.Step

/-!
Contract: a stop lasts until the machine is reset, unless it is put to sleep while it is stopped.

Owns:
- environments whose objects may ask for a stop at any time, and never start a stopped machine;
- the run state at the end of a step in which a stop was asked for, or `BREAK` was executed;
- executions of a stopped machine, which do nothing.

`SLEEP` is the exception: it overwrites the run state, also that of a machine that was stopped before
it in its step. A stop that is asked for after it lasts.
-/

namespace Avr

namespace Machine

variable {World : Type}

/-- A stopped machine stays stopped, and whoever asks for a stop does stop the machine. -/
structure Obeys (asked : World → Prop) (m next : Machine World) : Prop where
  stays : m.state = .stopped → next.state = .stopped
  stops : asked next.world → asked m.world ∨ next.state = .stopped

instance (asked : World → Prop) : IsPreorder (Machine World) (Obeys asked) where
  refl _ := ⟨id, .inl⟩
  trans _ _ _ first second := by
    refine ⟨second.stays ∘ first.stays, fun late => ?_⟩
    rcases second.stops late with early | stopped
    · exact (first.stops early).imp_right second.stays
    · exact .inr stopped

end Machine

/-- Outside objects may ask for a stop whenever they are called, and do not start the machine. -/
structure Environment.Obedient {World : Type} (env : Environment World) (asked : World → Prop) :
    Prop where
  note : ∀ notice world, asked (env.note notice world) → asked world
  readOutside : ∀ handle segment address blank world,
    asked (env.readOutside handle segment address blank world).2 → asked world
  writeOutside : ∀ handle segment address value world,
    asked (env.writeOutside handle segment address value world) → asked world
  notify : ∀ handle hook, Action.Respects (Machine.Obeys asked) (env.notify handle hook)
  readDevice : ∀ handle, Action.Respects (Machine.Obeys asked) (env.readDevice handle)
  writeDevice : ∀ handle value,
    Attempt.Respects (Machine.Obeys asked) (env.writeDevice handle value)
  readDeviceBit : ∀ handle bit,
    Action.Respects (Machine.Obeys asked) (env.readDeviceBit handle bit)
  writeDeviceBit : ∀ handle bit value,
    Attempt.Respects (Machine.Obeys asked) (env.writeDeviceBit handle bit value)

namespace Machine

open Avr.Isa

variable {World : Type} {env : Environment World} {asked : World → Prop} {start m : Machine World}

/-! ### Steps -/

/-- A change that neither starts the machine nor is the asking of a stop. -/
theorem Obeys.after {next : Machine World} (before : Obeys asked start m)
    (stays : m.state = .stopped → next.state = .stopped)
    (silent : asked next.world → asked m.world) : Obeys asked start next :=
  trans_of (Obeys asked) before ⟨stays, .inl ∘ silent⟩

theorem Obeys.keeps {α : Type} {act : Action World α}
    (respects : Action.Respects (Obeys asked) act) :
    Action.Respects (Keeps (Obeys asked start)) act :=
  ⟨fun m before => trans_of (Obeys asked) before (respects.related m)⟩

theorem invariant_obeys (obedient : env.Obedient asked) (start : Machine World) :
    ProgramInvariant env (Obeys asked start) fun _ => True where
  note notice before := before.after id (obedient.note notice _)
  instrument handle hook _ := Obeys.keeps (obedient.notify handle hook)
  device handle hook _ := Obeys.keeps (obedient.notify handle hook)
  readDevice handle := Obeys.keeps (obedient.readDevice handle)
  writeDevice handle value := ⟨Obeys.keeps (obedient.writeDevice handle value).run⟩
  readDeviceBit handle bit := Obeys.keeps (obedient.readDeviceBit handle bit)
  writeDeviceBit handle bit value := ⟨Obeys.keeps (obedient.writeDeviceBit handle bit value).run⟩
  readOutside _ _ _ _ before := before.after id (obedient.readOutside _ _ _ _ _)
  writeOutside _ _ _ _ before := before.after id (obedient.writeOutside _ _ _ _ _)
  add _ _ before := before.after id id
  timeout before := before.after id id
  vector before _ _ _ := before.after id id
  load before _ := before.after id id
  settleIn _ _ before := before.after id id
  addOwner _ before := before.after id id
  dropOwner _ before := before.after id id
  compute _ _ before _ := before.after id id
  allow before := before.after id id
  forbid before := before.after id id

/-- Waking leaves a stopped machine stopped. -/
theorem stepInvariant_obeys (asked : World → Prop) (start : Machine World) :
    StepInvariant (Obeys asked start) where
  jump _ before := before.after id id
  count before := before.after id id
  returned _ before := before.after id id
  breaking before := before.after (fun _ => rfl) id
  wake before := before.after (fun stopped => by simp [awake, stopped]) id
  spend before := before.after id id
  rest before := before.after id id
  look _ before := before.after id id
  halt before := before.after id id
  stale _ before := before.after id id
  fetch before _ := before.after id id

theorem unconcerned_obeys (asked : World → Prop) (start : Machine World) :
    Unconcerned (Itself (Obeys asked start)) :=
  unconcerned_itself (fun _ before => before.after id id) fun _ before => before.after id id

theorem background_obeys (obedient : env.Obedient asked) (start : Machine World) :
    Background env (Itself (Obeys asked start)) Eq fun _ => True :=
  (invariant_obeys obedient start).background (unconcerned_obeys asked start)
    fun _ => trivial

theorem stepwise_obeys (obedient : env.Obedient asked) (start : Machine World) :
    Stepwise env (Itself (Obeys asked start)) Eq fun _ => True :=
  ((invariant_obeys obedient start).computing.accesses (unconcerned_obeys asked start)
    (fun _ => trivial) fun _ _ ⟨same, before⟩ => ⟨same ▸ rfl, before.after id id⟩).stepwise
      (fun cycles => ((background_obeys obedient start).mirrors_advance cycles).keeps)
      (stepInvariant_obeys asked start).toExecutionInvariant

theorem keeps_notifyAll_obeys (obedient : env.Obedient asked) (start : Machine World)
    (handles : HandleList) {hook : Hook} (instrument : hook.isInstrument = true) :
    Action.Respects (Keeps (Obeys asked start)) (notifyAll env handles hook) :=
  ((stepwise_obeys obedient start).instruments hook instrument rfl).keeps

/-- `SLEEP` on a machine that is not stopped starts none that was, and leaves it to what is called
afterwards to stop this one. -/
theorem obeys_runInstruction_sleep (obedient : env.Obedient asked) {pc : Nat} {own : HandleList}
    (before : Obeys asked start m) (heeds : (approach env pc own m).state ≠ .stopped) :
    Obeys asked start ((runInstruction env pc (.control .sleep) own).run m).2 := by
  have notifies (handles : HandleList) {hook : Hook} (instrument : hook.isInstrument = true) :=
    keeps_notifyAll_obeys obedient start handles instrument
  have reached : Obeys asked start (approach env pc own m) :=
    (notifies _ rfl).related _ ((notifies _ rfl).related _ before)
  have slept : Obeys asked start ((execute env (.control .sleep)).run (approach env pc own m)).2 :=
    reached.after (fun stopped => absurd stopped heeds) (obedient.note _ _)
  have rest : Attempt.Respects (Keeps (Obeys asked start))
      (do
        advance env 1
        notifyAll env own (.afterInstruction pc)
        notifyAll env m.probes (.afterInstruction pc)
        modify fun m => { m with instructionsRun := m.instructionsRun + 1 } : Attempt World Unit) :=
    .bind (.lift ((stepwise_obeys obedient start).mirrors_advance 1).keeps) fun _ =>
      .bind (.lift (notifies _ rfl)) fun _ => .bind (.lift (notifies _ rfl)) fun _ =>
        .modify fun _ before => before.after id id
  rw [run_runInstruction]
  exact rest.run.related _ slept

theorem obeys_step_of_sleep (obedient : env.Obedient asked)
    (sleeps : executes? env m = some (.control .sleep))
    (heeds : (approached env m).state ≠ .stopped) : Obeys asked m ((step env).run m).2 := by
  obtain ⟨owed, reached, fetched, flash, polled, -, fetches, ran⟩ := run_step_of_executes sleeps
  have stepwise := stepwise_obeys obedient m
  have changes := stepInvariant_obeys asked m
  have ready : Obeys asked m { reached with flash } := by
    have spent := stepwise.mirrors_spendDelay.keeps.related m (refl_of (Obeys asked) m)
    have checked := (stepwise.keeps_pollInterrupts changes).run.related _ spent
    rw [polled] at checked
    exact changes.fetch checked fetches
  rw [approached, polled] at heeds
  dsimp only at heeds
  rw [fetches] at heeds
  have runs := obeys_runInstruction_sleep obedient ready heeds
  have halts : Attempt.Respects (Keeps (Obeys asked m)) (takeHalt : Stepping World Unit) :=
    stepwise.mirrors_takeHalt.keeps
  rw [ran, Attempt.run_bind, run_orBreak]
  rcases ended : (runInstruction env reached.pc (.control .sleep) (Flash.ownProbes fetched)).run
    { reached with flash } with ⟨fault | value, last⟩ <;> rw [ended] at runs
  · exact runs
  · exact halts.run.related last runs

/-- A step ends stopped if a stop was asked for during it, unless it executes `SLEEP` on a machine
that is stopped by then. -/
theorem obeys_step (obedient : env.Obedient asked)
    (heeds : executes? env m = some (.control .sleep) → (approached env m).state ≠ .stopped) :
    Obeys asked m ((step env).run m).2 := by
  by_cases sleeps : executes? env m = some (.control .sleep)
  · exact obeys_step_of_sleep obedient sleeps (heeds sleeps)
  · refine (stepwise_obeys obedient m).keeps_step (stepInvariant_obeys asked m)
      (fun _ _ before => before.after id id) (refl_of (Obeys asked) m) fun i executes => ?_
    refine (invariant_obeys obedient m).computing.handles (fun _ _ before => before.after id id)
      (fun _ => (background_obeys obedient m).mirrors_storeProgram.keeps) ?_
    rintro rfl
    exact absurd executes sleeps

/-! ### `BREAK` -/

/-- The computation leaves a stopped machine if it starts from one with the property. -/
abbrev EndsStopped {α ε : Type} (P : Machine World → Prop) (act : ExceptT ε (Action World) α) :
    Prop :=
  Attempt.Ensures P act (fun m => m.state = .stopped) fun _ m => m.state = .stopped

theorem keeps_stopped {α ε : Type} {act : ExceptT ε (Action World) α}
    (respects : ∀ start, Attempt.Respects (Keeps (Obeys asked start)) act) :
    Attempt.Respects (Keeps fun m => m.state = .stopped) act :=
  ⟨⟨fun m => ((respects m).run.related m (refl_of (Obeys asked) m)).stays⟩⟩

theorem staysStopped {α : Type} {act : Action World α}
    (respects : ∀ start, Action.Respects (Keeps (Obeys asked start)) act) (m : Machine World)
    (stopped : m.state = .stopped) : (act m).2.state = .stopped :=
  ((respects m).related m (refl_of (Obeys asked) m)).stays stopped

theorem EndsStopped.orBreak {α : Type} {P : Machine World → Prop} {act : Attempt World α}
    (stops : EndsStopped P act) : EndsStopped P (orBreak act) := by
  constructor
  all_goals
    intro m result next before ran
    rw [run_orBreak] at ran
    rcases inner : act.run m with ⟨fault | value, last⟩ <;> rw [inner] at ran <;> cases ran
  · exact stops.completed m _ _ before inner
  · exact stops.failed m _ _ before inner

theorem endsStopped_execute (env : Environment World) :
    EndsStopped (fun _ => True) (execute env (.control .break)) where
  completed m value next _ ran := by
    cases ran
    rfl
  failed m fault next _ ran := by cases ran

/-- Whatever is called after `BREAK` was executed leaves the machine stopped. -/
theorem endsStopped_break (obedient : env.Obedient asked) (pc : Nat) (own : HandleList) :
    EndsStopped (fun _ => True) (runInstruction env pc (.control .break) own) := by
  have instruments (handles : HandleList) (hook : Hook) (instrument : hook.isInstrument = true) :
      EndsStopped (fun m => m.state = .stopped)
        (liftM (notifyAll env handles hook) : Attempt World Unit) :=
    .lift (staysStopped fun start => keeps_notifyAll_obeys obedient start handles instrument)
  have stepwise := stepwise_obeys obedient
  refine .getting fun m _ => ?_
  refine .bind (Q := fun _ => True) (.lift fun _ _ => trivial) fun _ => ?_
  refine .bind (Q := fun _ => True) (.lift fun _ _ => trivial) fun _ => ?_
  refine .bind (endsStopped_execute env) fun cycles => ?_
  refine .bind (Q := fun m => m.state = .stopped) (.lift (staysStopped fun start =>
    ((stepwise start).mirrors_advance cycles).keeps)) fun _ => ?_
  refine .bind (instruments _ _ rfl) fun _ => .bind (instruments _ _ rfl) fun _ => ?_
  exact .lift fun _ stopped => stopped

/-- A step that executes `BREAK` ends stopped. -/
theorem state_step_of_break (obedient : env.Obedient asked)
    (executes : executes? env m = some (.control .break)) :
    ((step env).run m).2.state = .stopped := by
  obtain ⟨-, reached, fetched, flash, -, -, -, ran⟩ := run_step_of_executes executes
  have runs : EndsStopped (fun _ => True)
      (do
        orBreak (runInstruction env reached.pc (.control .break) (Flash.ownProbes fetched))
        takeHalt : Stepping World Unit) := by
    refine .bind (endsStopped_break obedient _ _).orBreak fun _ => ?_
    have halts (start : Machine World) :
        Attempt.Respects (Keeps (Obeys asked start)) (takeHalt : Stepping World Unit) :=
      (stepwise_obeys obedient start).mirrors_takeHalt.keeps
    exact .of_keeps (keeps_stopped halts) fun _ _ stopped => stopped
  rcases result : (step env).run m with ⟨broken | value, last⟩ <;> rw [ran] at result
  · exact runs.failed _ broken last trivial result
  · exact runs.completed _ value last trivial result

/-! ### Executions of a stopped machine -/

/-- Nothing was executed, dispatched or delivered: only what an execution reports may differ. -/
def Idle (m next : Machine World) : Prop :=
  ∃ world halt pause stopRequested, next = { m with world, halt, pause, stopRequested }

instance : IsPreorder (Machine World) Idle where
  refl m := ⟨m.world, m.halt, m.pause, m.stopRequested, rfl⟩
  trans _ _ _ first second := by
    obtain ⟨_, _, _, _, rfl⟩ := first
    obtain ⟨_, _, _, _, rfl⟩ := second
    exact ⟨_, _, _, _, rfl⟩

theorem Idle.state {next : Machine World} (idle : Idle m next) : next.state = m.state := by
  obtain ⟨_, _, _, _, rfl⟩ := idle
  rfl

theorem Idle.setPause (m : Machine World) (pause : Pause) : Idle m (m.setPause pause) :=
  ⟨_, _, _, _, rfl⟩

theorem idle_stepIn (stopped : m.state = .stopped) : Idle m ((stepIn env).run m).2 := by
  rw [run_stepIn, run_stepThrough, run_step_of_stopped stopped]
  exact .setPause m .stop

section Runs

variable {Memory : Type} {condition : Memory → Action World (Bool × Memory)}

theorem Idle.keeps {α : Type} {act : Action World α} (respects : Action.Respects Idle act) :
    Action.Respects (Keeps (Idle start)) act :=
  ⟨fun m idle => trans_of Idle idle (respects.related m)⟩

theorem idle_stop (stopped : start.state = .stopped) :
    Action.Respects (Keeps (Idle start)) (stop env) := by
  refine ⟨fun m idle => trans_of Idle idle ?_⟩
  have state : m.state = .stopped := idle.state.trans stopped
  exact ⟨env.note (.stopped m.cycles) m.world, some .stop, m.pause, m.stopRequested, state ▸ rfl⟩

theorem idle_step (stopped : start.state = .stopped) :
    Attempt.Respects (Keeps (Idle start)) (step env) := by
  refine ⟨⟨fun m idle => ?_⟩⟩
  rw [run_step_of_stopped (idle.state.trans stopped)]
  exact idle

theorem idle_runSteps (stopped : start.state = .stopped)
    (asks : ∀ memory, Action.Respects Idle (condition memory)) (bound : Nat) (memory : Memory) :
    Action.Respects (Keeps (Idle start)) (runSteps env condition bound memory) := by
  induction bound generalizing memory with
  | zero => exact .pure _
  | succ bound inductionHypothesis =>
      refine .bind .get fun m => ?_
      dsimp only
      split
      · refine .bind (Idle.keeps (.modify fun _ => ⟨_, _, _, _, rfl⟩)) fun _ => ?_
        exact .bind (idle_stop stopped) fun _ => .pure _
      · refine .bind (Idle.keeps (asks memory)) fun asked => ?_
        split
        · exact .pure _
        · refine .bind (idle_step stopped).run fun result => ?_
          cases result with
          | ok _ => exact inductionHypothesis _
          | error broken => exact .pure _

theorem idle_runWhile (stopped : m.state = .stopped)
    (asks : ∀ memory, Action.Respects Idle (condition memory)) (bound : Nat) (memory : Memory) :
    Idle m (runWhile env condition bound memory m).2 := by
  have concludes (verdict : Option (Except Fault Pause)) :
      Action.Respects Idle (conclude verdict : Action World RunResult) := by
    unfold conclude
    split
    · exact .bind (.modify fun m => .setPause m _) fun _ => .pure _
    · exact .pure _
    · exact .pure _
  have runs : Action.Respects (Keeps (Idle m)) (runWhile env condition bound memory) := by
    refine .bind (Idle.keeps (.modify fun m => .setPause m _)) fun _ => ?_
    refine .bind (idle_runSteps stopped asks bound memory) fun ended => ?_
    exact .bind (Idle.keeps (concludes _)) fun _ => .pure _
  exact runs.related m (refl_of Idle m)

end Runs

/-- No way to execute a stopped machine does anything: it runs no instruction, dispatches no
interrupt and does not advance the clock. -/
theorem idle_of_stopped (env : Environment World) (stopped : m.state = .stopped) :
    Idle m ((stepIn env).run m).2 ∧
      ∀ bound, Idle m (run env bound m).2 ∧ (∀ limit, Idle m (runSome env limit m).2) ∧
        (∀ cycles, Idle m (runCycles env bound cycles m).2) ∧
        ∀ {Memory : Type} (condition : Memory → Action World (Bool × Memory)) memory,
          (∀ memory, Action.Respects Idle (condition memory)) →
          Idle m (runWhile env condition bound memory m).2 := by
  refine ⟨idle_stepIn stopped, fun bound => ⟨?_, fun limit => ?_, fun cycles => ?_, ?_⟩⟩
  · exact idle_runWhile stopped (fun _ => .pure _) bound ()
  · have counts (taken : Nat) : Action.Respects Idle
        (return (taken < limit, taken + 1) : Action World (Bool × Nat)) := .pure _
    exact idle_runWhile stopped counts (limit + 1) 0
  · exact idle_runWhile stopped (fun _ => .bind .get fun _ => .pure _) bound ()
  · exact fun condition memory asks => idle_runWhile stopped asks bound memory

/-! ### From the asking to the reset -/

/-- What may happen to a machine before it is reset: a step, unless it executes `SLEEP` on a machine
that is stopped by then, or anything that keeps a stopped machine stopped, such as an operation from
outside. -/
inductive Onward (env : Environment World) (asked : World → Prop) (m : Machine World) :
    Machine World → Prop where
  | step (heeds : executes? env m = some (.control .sleep) → (approached env m).state ≠ .stopped) :
      Onward env asked m ((step env).run m).2
  | act (act : Action World Unit) (obeys : Action.Respects (Obeys asked) act) :
      Onward env asked m (act m).2

theorem obeys_of_onward (obedient : env.Obedient asked) {last : Machine World}
    (onward : Relation.ReflTransGen (Onward env asked) m last) : Obeys asked m last := by
  induction onward with
  | refl => exact refl_of (Obeys asked) m
  | tail _ next inductionHypothesis =>
      refine trans_of (Obeys asked) inductionHypothesis ?_
      cases next with
      | step heeds => exact obeys_step obedient heeds
      | act act obeys => exact obeys.related _

/-- Once a stop was asked for, or `BREAK` was executed, a machine is stopped at the end of the step
and from then on, and executing it does nothing, as long as it neither executes `SLEEP` while it is
stopped nor is reset. -/
theorem stop_lasts_unless_asleep (obedient : env.Obedient asked)
    (heeded : asked m.world → m.state = .stopped) {last : Machine World}
    (onward : Relation.ReflTransGen (Onward env asked) m last) :
    (asked last.world ∨ m.state = .stopped → last.state = .stopped) ∧
      (executes? env last = some (.control .break) → ((step env).run last).2.state = .stopped) ∧
      (last.state = .stopped → Idle last ((stepIn env).run last).2 ∧
        ∀ bound, Idle last (run env bound last).2 ∧
          (∀ limit, Idle last (runSome env limit last).2) ∧
          (∀ cycles, Idle last (runCycles env bound cycles last).2) ∧
          ∀ {Memory : Type} (condition : Memory → Action World (Bool × Memory)) memory,
            (∀ memory, Action.Respects Idle (condition memory)) →
            Idle last (runWhile env condition bound memory last).2) := by
  have obeys := obeys_of_onward obedient onward
  refine ⟨?_, state_step_of_break obedient, idle_of_stopped env⟩
  rintro (late | stopped)
  · rcases obeys.stops late with early | stopped
    · exact obeys.stays (heeded early)
    · exact stopped
  · exact obeys.stays stopped

/-! ### A probe that stops the machine -/

/-- An environment in which every probe asks for a stop before an instruction, and remembers it. -/
def stoppingProbe : Environment Bool where
  note _ world := world
  readOutside _ _ _ blank world := (blank, world)
  writeOutside _ _ _ _ world := world
  notify _ hook :=
    match hook with
    | .beforeInstruction _ =>
      modify fun m => { m with world := true, state := .stopped, halt := some .stop }
    | _ => return
  readDevice _ := return 0
  writeDevice _ _ := return
  readDeviceBit _ _ := return false
  writeDeviceBit _ _ _ := return
  patience := 2

theorem obedient_stoppingProbe : stoppingProbe.Obedient fun asked => asked = true where
  note _ _ := id
  readOutside _ _ _ _ _ := id
  writeOutside _ _ _ _ _ := id
  notify _ hook := by
    unfold stoppingProbe
    dsimp only
    split
    · exact .modify fun _ => ⟨fun _ => rfl, fun _ => .inr rfl⟩
    · exact .pure _
  readDevice _ := .pure _
  writeDevice _ _ := .pure _
  readDeviceBit _ _ := .pure _
  writeDeviceBit _ _ _ := .pure _

/-- A machine that is about to execute an instruction with a probe on it. -/
def probed (i : Instr) : Machine Bool :=
  let start := new { Part.atmega128 with sramSize := 8, flashSize := 16, interruptCount := 2 }
    ⟨.known 0, false, false⟩ false
  let loaded := ((loadProgram (Program.ofInstrs [i, .control .nop])).run start).2
  { loaded with probes := [⟨0⟩] }

/-- The stop that is asked for before `NOP` is in force after it. -/
theorem stop_lasts_unless_asleep_nop :
    let m := probed (.control .nop)
    let last := ((step stoppingProbe).run m).2
    last.world = true ∧ last.state = .stopped ∧ Idle last ((stepIn stoppingProbe).run last).2 := by
  intro m last
  have onward : Relation.ReflTransGen (Onward stoppingProbe fun asked => asked = true) m last :=
    .single (.step fun sleeps => absurd sleeps (by decide +kernel))
  have lasts := stop_lasts_unless_asleep obedient_stoppingProbe (by decide +kernel) onward
  have stopped : last.state = .stopped := lasts.1 (.inl (by decide +kernel))
  exact ⟨by decide +kernel, stopped, (lasts.2.2 stopped).1⟩

/-- The stop that is asked for before `SLEEP` is lost: the machine sleeps, and its clock goes on. -/
theorem sleep_overrides_stop :
    let m := probed (.control .sleep)
    let last := ((step stoppingProbe).run m).2
    last.world = true ∧ last.state = .sleeping ∧
      last.cycles < ((step stoppingProbe).run last).2.cycles := by
  decide +kernel

end Machine

end Avr

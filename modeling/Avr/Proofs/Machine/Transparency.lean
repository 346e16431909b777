import Avr.Proofs.Machine.Breakpoint

/-!
Contract: a program runs the same whatever instruments are on the machine.

Owns:
- single steps on two machines that are alike, part by part;
- any number of single steps from machines that operations and steps lead to.
-/

namespace Avr.Machine

open Avr.Isa

variable {World Outside : Type} {env : Environment World} {view : World → Outside}
  {m n : Machine World}

/-! ### Single steps on machines that are alike -/

theorem agree_pollAlways (transparent : env.Transparent view) (same : Alongside view m n) :
    Attempt.Agree (Alongside view) (pollAlways env) (pollAlways env) m n := by
  have taken : Alongside view (takeCheck m).1 (takeCheck n).1 := ⟨same.alike, same.left, same.right⟩
  have returned {m n : Machine World} (same : Alongside view m n) :
      Alongside view { m with justReturned := false, innerLoop := false }
        { n with justReturned := false, innerLoop := false } :=
    ⟨same.alike.map fun g => { g with justReturned := false }, same.left, same.right⟩
  have checks := (stepwise_alongside transparent).mirrors_checkInterrupts returned true
  exact ⟨(checks.agree _ _ taken).same, (checks.agree _ _ taken).accord⟩

theorem mirrors_finishInstruction (transparent : env.Transparent view) (pc : Nat) (i : Instr)
    (own own' : HandleList) :
    Attempt.Mirrors (Alongside view) (finishInstruction env pc i own)
      (finishInstruction env pc i own') := by
  have stepwise := stepwise_alongside transparent
  have flagless : Flagless (Alongside view) := fun m n status same =>
    ⟨same.alike.map fun g => { g with status }, same.left, same.right⟩
  have runs : Attempt.Mirrors (Alongside view) (runInstruction env pc i own)
      (runInstruction env pc i own') :=
    stepwise.mirrors_runInstruction pc (.inr flagless) (handles_alongside transparent i) trivial
  exact .bind (mirrors_orBreak runs) fun _ => stepwise.mirrors_takeHalt

/-- Steps that no breakpoint cuts in two. -/
theorem agree_stepThrough_of_step
    {left right : Except Break Unit × Machine World} (stepped : (step env).run m = left)
    (stepped' : (step env).run n = right)
    (unpaused : ∀ pc, left.1 ≠ .error (.breakpoint pc)) (same : left.1 = right.1)
    (after : Alongside view left.2 right.2) :
    Attempt.Agree (Alongside view) (stepThrough env) (stepThrough env) m n := by
  have through : (stepThrough env).run m = left := by
    rw [run_stepThrough_of_ne (stepped ▸ unpaused), stepped]
  have through' : (stepThrough env).run n = right := by
    rw [run_stepThrough_of_ne (stepped' ▸ same ▸ unpaused), stepped']
  constructor
  · rw [through, through', same]
  · rw [through, through']
    exact after

/-- The rest of a single step after the interrupt check. -/
theorem agree_stepThrough_of_poll (transparent : env.Transparent view) (vigilant : m.Vigilant)
    (vigilant' : n.Vigilant) (running : m.state ≠ .stopped) (running' : n.state ≠ .stopped)
    {owed : Bool} {reached reached' : Machine World}
    (polled : (pollAlways env).run (spendDelay env m).2 = (.ok owed, reached))
    (polled' : (pollAlways env).run (spendDelay env n).2 = (.ok owed, reached'))
    (same : Alongside view reached reached') :
    Attempt.Agree (Alongside view) (stepThrough env) (stepThrough env) m n := by
  have stepwise := stepwise_alongside transparent
  have stepped := run_step_of_poll transparent.tame vigilant running polled
  have stepped' := run_step_of_poll transparent.tame vigilant' running' polled'
  cases asleep : reached.sleeping with
  | true =>
      have asleep' : reached'.sleeping = true := same.alike.akin.sleeping ▸ asleep
      have sleeps : Attempt.Mirrors (Alongside view)
          (do sleepOn env; takeHalt : Stepping World Unit) (do sleepOn env; takeHalt) :=
        .bind (.lift stepwise.mirrors_sleepOn) fun _ => stepwise.mirrors_takeHalt
      have agree := sleeps.agree _ _ same
      rw [run_finishStep, if_pos asleep] at stepped
      rw [run_finishStep, if_pos asleep'] at stepped'
      refine agree_stepThrough_of_step stepped stepped' (fun pc => ?_) agree.same agree.accord
      rw [Attempt.run_bind, Attempt.run_lift]
      exact run_takeHalt_ne_breakpoint _ pc
  | false =>
      have awake' : reached'.sleeping = false := same.alike.akin.sleeping ▸ asleep
      have indices : reached.flash.wordIndex reached.pc = reached'.flash.wordIndex reached'.pc := by
        rw [same.alike.akin.pc, Flash.wordIndex_of_bare same.alike.flash]
      cases found : reached.flash.wordIndex reached.pc with
      | error fault =>
          exact agree_stepThrough_of_step
            (stepped.trans (run_finishStep_of_refused asleep found owed))
            (stepped'.trans (run_finishStep_of_refused awake' (indices ▸ found) owed))
            (fun _ broken => by cases broken) rfl same
      | ok index =>
          obtain ⟨own, ready, alike, coherent, ran⟩ := run_stepThrough_of_found transparent vigilant
            running polled same.left asleep found
          obtain ⟨own', ready', alike', coherent', ran'⟩ := run_stepThrough_of_found transparent
            vigilant' running' polled' same.right awake' (indices ▸ found)
          rw [← Flash.decodeAt_of_bare same.alike.flash, ← same.alike.akin.pc] at ran'
          have agree := (mirrors_finishInstruction transparent reached.pc
            (reached.flash.decodeAt index) own own').agree ready ready'
            ⟨alike.trans (same.alike.trans alike'.symm), coherent, coherent'⟩
          constructor
          · rw [ran, ran']
            exact agree.same
          · rw [ran, ran']
            exact agree.accord

/-- A single step has the same result on both machines and leaves them alike, whether breakpoints
cut it in two on both, on one or on neither. -/
theorem agree_stepThrough (transparent : env.Transparent view) (vigilant : m.Vigilant)
    (vigilant' : n.Vigilant) (alike : Alike view m n) :
    Attempt.Agree (Alongside view) (stepThrough env) (stepThrough env) m n := by
  have same : Alongside view m n := ⟨alike, vigilant.flash, vigilant'.flash⟩
  by_cases stopped : m.state = .stopped
  · exact agree_stepThrough_of_step (run_step_of_stopped stopped)
      (run_step_of_stopped (alike.akin.state ▸ stopped)) (fun _ broken => by cases broken) rfl same
  · have running' : n.state ≠ .stopped := alike.akin.state ▸ stopped
    have spent : Alongside view (spendDelay env m).2 (spendDelay env n).2 :=
      ((stepwise_alongside transparent).mirrors_spendDelay.agree m n same).accord
    obtain ⟨results, after⟩ := agree_pollAlways transparent spent
    rcases polled : (pollAlways env).run (spendDelay env m).2 with ⟨result, reached⟩
    rcases polled' : (pollAlways env).run (spendDelay env n).2 with ⟨result', reached'⟩
    rw [polled, polled'] at results after
    obtain rfl : result = result' := results
    cases result with
    | error fault =>
        have fails {m reached : Machine World} (vigilant : m.Vigilant) (running : m.state ≠ .stopped)
            (polled : (pollAlways env).run (spendDelay env m).2 = (.error fault, reached)) :
            (step env).run m = (.error (.failed fault), reached) := by
          rw [run_step transparent.tame vigilant, stepAlways, run_stepPolling, if_neg running,
            Attempt.run_bind, run_orBreak, polled]
        exact agree_stepThrough_of_step (fails vigilant stopped polled)
          (fails vigilant' running' polled') (fun _ broken => by cases broken) rfl after
    | ok owed =>
        exact agree_stepThrough_of_poll transparent vigilant vigilant' stopped running' polled
          polled' after

theorem vigilant_stepThrough (tame : env.Tame) (vigilant : m.Vigilant)
    {result : Except Break Unit} {next : Machine World}
    (ran : (stepThrough env).run m = (result, next)) (survives : isFatal result = false) :
    next.Vigilant := by
  rw [run_stepThrough] at ran
  rcases stepped : (step env).run m with ⟨broken | value, middle⟩ <;> rw [stepped] at ran
  · cases broken with
    | breakpoint pc => exact vigilant_step tame (vigilant_step tame vigilant stepped rfl) ran survives
    | _ =>
        cases ran
        exact vigilant_step tame vigilant stepped survives
  · cases ran
    exact vigilant_step tame vigilant stepped rfl

theorem agree_stepIn (transparent : env.Transparent view) (vigilant : m.Vigilant)
    (vigilant' : n.Vigilant) (alike : Alike view m n) :
    Attempt.Agree (Alongside view) (stepIn env) (stepIn env) m n := by
  have pauses (pause : Pause) : Attempt.Mirrors (Alongside view)
      (modify (setPause · pause) : Attempt World Unit) (modify (setPause · pause)) :=
    .modify fun _ _ same => ⟨same.alike.map fun g => g.setPause pause, same.left, same.right⟩
  refine .bind (.lift (agree_stepThrough transparent vigilant vigilant' alike)) fun result =>
    Attempt.Mirrors.agree ?_
  cases result with
  | ok value => exact pauses .tripwire
  | error broken =>
      dsimp only
      cases broken.verdict with
      | ok pause => exact pauses pause
      | error fault => exact .bind (pauses .unsuccessful) fun _ => .throw fault

theorem vigilant_stepIn (tame : env.Tame) (vigilant : m.Vigilant) {next : Machine World}
    (ran : (stepIn env).run m = (.ok (), next)) : next.Vigilant := by
  have sets (pause : Pause) {m : Machine World} : Keeps Vigilant m (m.setPause pause) :=
    Reaches.vigilant (.edit rfl rfl rfl rfl rfl)
  rw [run_stepIn] at ran
  rcases through : (stepThrough env).run m with ⟨broken | value, middle⟩ <;> rw [through] at ran
  · cases broken with
    | failed fault => cases ran
    | _ =>
        cases ran
        exact sets _ (vigilant_stepThrough tame vigilant through rfl)
  · cases ran
    exact sets _ (vigilant_stepThrough tame vigilant through rfl)

/-- What operations and steps make of a new machine, up to the first fatal error. -/
inductive Reached (env : Environment World) : Machine World → Prop where
  | new (part : Part) (settings : Settings) (world : World) :
      Reached env (new part settings world)
  /-- Any operation that neither steps the machine nor replaces its interrupt table. -/
  | operation {m : Machine World} (reached : Reached env m) {act : Action World Unit}
      (tame : act.Tame) : Reached env (act m).2
  | step {m next : Machine World} (reached : Reached env m) {result : Except Break Unit}
      (ran : (step env).run m = (result, next)) (survives : isFatal result = false) :
      Reached env next

theorem Reached.vigilant (tame : env.Tame) (reached : Reached env m) : m.Vigilant := by
  induction reached with
  | new part settings world => exact vigilant_new part settings world
  | operation _ tame inductionHypothesis => exact tame.watchful.related _ inductionHypothesis
  | step _ ran survives inductionHypothesis =>
      exact vigilant_step tame inductionHypothesis ran survives

/-- The results of a number of single steps and the machine that they leave. A fatal error ends
them. -/
def singleSteps (env : Environment World) : Nat → Machine World →
    List (Except Fault Unit) × Machine World
  | 0, m => ([], m)
  | count + 1, m =>
    match (stepIn env).run m with
    | (.error fault, next) => ([.error fault], next)
    | (.ok (), next) =>
      let (results, last) := singleSteps env count next
      (.ok () :: results, last)

theorem agree_singleSteps (transparent : env.Transparent view) (vigilant : m.Vigilant)
    (vigilant' : n.Vigilant) (alike : Alike view m n) (count : Nat) :
    (singleSteps env count m).1 = (singleSteps env count n).1 ∧
      Alike view (singleSteps env count m).2 (singleSteps env count n).2 := by
  induction count generalizing m n with
  | zero => exact ⟨rfl, alike⟩
  | succ count inductionHypothesis =>
      obtain ⟨results, after⟩ := agree_stepIn transparent vigilant vigilant' alike
      rcases ran : (stepIn env).run m with ⟨result, next⟩
      rcases ran' : (stepIn env).run n with ⟨result', next'⟩
      rw [ran, ran'] at results after
      obtain rfl : result = result' := results
      simp only [singleSteps, ran, ran']
      cases result with
      | error fault => exact ⟨rfl, after.alike⟩
      | ok value =>
          have rest := inductionHypothesis (vigilant_stepIn transparent.tame vigilant ran)
            (vigilant_stepIn transparent.tame vigilant' ran') after.alike
          exact ⟨congrArg (Except.ok () :: ·) rest.1, rest.2⟩

/-- Of two machines that differ in their instruments only, any number of single steps have the same
results, and leave machines that differ in their instruments only.

The instruments may be any that leave the machine as it is apart from instruments; the devices may
be any that run errands. -/
theorem instruments_change_nothing {env : Environment World} {view : World → Outside}
    (transparent : env.Transparent view) {m n : Machine World} (reached : Reached env m)
    (reached' : Reached env n) (alike : Alike view m n) (count : Nat) :
    (singleSteps env count m).1 = (singleSteps env count n).1 ∧
      Alike view (singleSteps env count m).2 (singleSteps env count n).2 :=
  agree_singleSteps transparent (reached.vigilant transparent.tame)
    (reached'.vigilant transparent.tame) alike count

/-! ### A probe and a breakpoint beside an event -/

/-- An environment in which every event posts the first vector, and every probe puts a breakpoint on
the instruction after the one it is called about. -/
def breakpointsAhead : Environment Unit :=
  { silence with
    notify := fun _ hook =>
      match hook with
      | .event => do let _ ← (setPosted silence 1 true).run
      | .beforeInstruction address =>
        modify fun m => { m with flash := m.flash.apply (.insertBreakpoint (address + 2)) }
      | _ => return }

/-- What is attached to a machine is only seen by its instruments. -/
theorem alike_apply (view : World → Outside) (m : Machine World) {operation : Flash.Operation}
    (readOnly : operation.writes = false) :
    Alike view m { m with flash := m.flash.apply operation } :=
  (Alike.refl view m).withFlash (m.flash.bare_apply readOnly).symm

theorem tame_apply (operation : Flash.Operation) :
    Action.Tame (modify fun m => { m with flash := m.flash.apply operation } : Action World Unit) :=
  .modify fun _ => .single (.program fun coherent => Flash.agrees_apply coherent operation)

theorem discreet_silence : silence.Discreet fun _ => () where
  note _ _ := rfl
  instrument _ _ _ m := .refl _ m
  tame _ _ _ := .pure _

theorem discreet_breakpointsAhead : breakpointsAhead.Discreet fun _ => () where
  note _ _ := rfl
  instrument _ hook instrument m := by
    unfold breakpointsAhead
    dsimp only
    split
    · cases instrument
    · exact alike_apply _ m rfl
    · exact .refl _ m
  tame _ hook instrument := by
    unfold breakpointsAhead
    dsimp only
    split
    · cases instrument
    · exact tame_apply _
    · exact .pure _

theorem transparent_breakpointsAhead : breakpointsAhead.Transparent fun _ => () where
  discreet := discreet_breakpointsAhead
  readOutside _ _ _ _ _ _ _ := ⟨rfl, rfl⟩
  writeOutside _ _ _ _ _ _ _ := rfl
  device _ hook device := by
    unfold breakpointsAhead
    dsimp only
    split
    · exact .andThen (.post discreet_silence 1 true) fun _ => .done _
    · cases device
    · exact .done _
  readDevice _ := .done _
  writeDevice _ _ := .done _
  readDeviceBit _ _ := .done _
  writeDeviceBit _ _ _ := .done _

/-- Six instructions in flash, interrupts allowed, and an event that is due after a cycle. -/
def prepareEvent : Action Unit Unit := do
  let _ ← (loadProgram (Program.ofInstrs (List.replicate 6 (.control .nop)))).run
  let _ ← (enableInterrupt silence 1).run
  enableInterrupts silence
  schedule silence (.outside ⟨0⟩) 1

theorem tame_prepareEvent : prepareEvent.Tame :=
  .bind (tame_loadProgram _).run fun _ =>
    .bind (tame_enableInterrupt tame_silence 1).run fun _ =>
      .bind (tame_enableInterrupts tame_silence) fun _ => tame_schedule _ _

/-- A probe of all instructions, and a breakpoint on the first. -/
def attachInstruments : Action Unit Unit := do
  modify fun m => { m with probes := [⟨0⟩] }
  modify fun m => { m with flash := m.flash.apply (.insertBreakpoint 0) }

theorem tame_attachInstruments : attachInstruments.Tame :=
  .bind (.modify fun _ => .edit rfl rfl rfl rfl rfl) fun _ => tame_apply _

theorem alike_attachInstruments (m : Machine Unit) :
    Alike (fun _ => ()) m (attachInstruments m).2 :=
  alike_apply _ m (rfl : (Flash.Operation.insertBreakpoint 0).writes = false)

/-- A step of one machine executes an instruction where a step of the other pauses at a breakpoint,
and yet single steps of both go the same way. -/
theorem instruments_change_nothing_breakpoints :
    let m := (prepareEvent (new smallPart ⟨.known 0, false, false⟩ ())).2
    let n := (attachInstruments m).2
    ((step breakpointsAhead).run m).2.instructionsRun = 1 ∧
      ((step breakpointsAhead).run n).2.instructionsRun = 0 ∧
      (singleSteps breakpointsAhead 3 m).1 = (singleSteps breakpointsAhead 3 n).1 ∧
      Alike (fun _ => ()) (singleSteps breakpointsAhead 3 m).2
        (singleSteps breakpointsAhead 3 n).2 := by
  intro m n
  have reached : Reached breakpointsAhead m := .operation (.new _ _ _) tame_prepareEvent
  refine ⟨by decide +kernel, by decide +kernel, ?_⟩
  exact instruments_change_nothing transparent_breakpointsAhead reached
    (reached.operation tame_attachInstruments) (alike_attachInstruments m) 3

end Avr.Machine

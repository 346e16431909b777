import Avr.Proofs.Machine.Restart
import Avr.Proofs.SelfProgramming.Deed

/-!
Contract: whatever is done with machines that cannot be told apart, they still cannot.

Owns:
- the operations of a machine that call others on the way, as mirrors of themselves;
- the use of a machine from outside: such operations, looks at it, and changes of its other parts,
  where everyone who is called on the way uses the machine in turn;
- runs and single steps, and what is read of flash, as use of a machine.

Nobody who uses a machine sees the marks of its interrupt check or what its flash remembers.
-/

namespace Avr

namespace Machine

open Avr.Interrupt Avr.Isa Avr.Time

variable {World Outside : Type} {env : Environment World} {view : World → Outside}
  {m n : Machine World}

/-! ### Operations -/

section Operations

variable (impartial : env.Impartial view)
include impartial

theorem operating_indistinct :
    Operating env (Indistinct view) Eq (fun _ => True) fun _ => True where
  toStepwise := (inStep_indistinct impartial).toStepwise
  enabling _ enabled := (accord_indistinct impartial).mirrors_setEnabled enabled trivial
  flagging free bit set := (accord_indistinct impartial).mirrors_setFlagBit free
    (fun value same => ⟨same.map fun g => g.setIoStored _ value, same.left, same.right⟩) bit set
  told _ _ _ _ _ := trivial
  restart := mirrors_reset impartial
  step _ := (inStep_indistinct impartial).mirrors_step.run

end Operations

/-- An operation on a machine that calls others on the way, or has something recorded. -/
inductive Offers (env : Environment World) : {α : Type} → Action World α → Prop where
  | operates {α : Type} {act : Action World α}
      (operates : Operates (fun _ => True) (fun _ => True) env act) : Offers env act
  | readMemory (address : Nat) : Offers env (readMemory env address)
  | writeMemory (address : Nat) (value : UInt8) : Offers env (writeMemory env address value)
  | readFlash (address : Nat) : Offers env (readFlash env address)
  | push (value : UInt8) : Offers env (push env value).run
  | pop : Offers env (pop env)
  | setStatus (value : UInt8) : Offers env (setStatus env value)
  | schedule (event : Event) (delay : Nat) : Offers env (schedule env event delay)
  | unschedule (event : Event) : Offers env (unschedule env event)
  | timeout : Offers env (timeout env)
  | stop : Offers env (stop env)

theorem mirrors_offers (impartial : env.Impartial view) {α : Type} {act : Action World α}
    (offers : Offers env act) : Action.Mirrors (Indistinct view) act act := by
  have operating := operating_indistinct impartial
  cases offers with
  | operates operates => exact operating.mirrors_operates operates
  | readMemory address => exact operating.mirrors_readMemory address
  | writeMemory address value => exact operating.mirrors_writeMemory address value
  | readFlash address => exact operating.mirrors_readFlash address
  | push value => exact (operating.mirrors_push value).run
  | pop => exact operating.mirrors_pop
  | setStatus value => exact operating.mirrors_setStatus value
  | schedule event delay => exact (accord_indistinct impartial).mirrors_schedule event delay
  | unschedule event =>
      exact operating.mirrors_unschedule (unconcerned_indistinct view).queue event
  | timeout => exact (accord_indistinct impartial).mirrors_timeout
  | stop => exact (inStep_indistinct impartial).mirrors_stop

/-! ### Everything that is done from outside -/

/-- The computation neither uses nor changes the marks of the interrupt check, what flash remembers
and the world, and it leaves flash and the interrupt table as they are. -/
structure Oblivious {α : Type} (act : Action World α) : Prop where
  blind : ∀ m n : Machine World, m.unmarked = n.unmarked →
    (act m).1 = (act n).1 ∧ (act m).2.unmarked = (act n).2.unmarked
  loop : ∀ m, (act m).2.innerLoop = m.innerLoop
  table : ∀ m, (act m).2.interrupts.table = m.interrupts.table
  flash : ∀ m, (act m).2.flash = m.flash
  world : ∀ m, (act m).2.world = m.world

theorem Indistinct.of_unmarked (same : Indistinct view m n) {next next' : Machine World}
    (rest : next.unmarked = next'.unmarked) (loop : next.innerLoop = m.innerLoop)
    (loop' : next'.innerLoop = n.innerLoop) (table : next.interrupts.table = m.interrupts.table)
    (table' : next'.interrupts.table = n.interrupts.table) (flash : next.flash = m.flash)
    (flash' : next'.flash = n.flash) (world : next.world = m.world)
    (world' : next'.world = n.world) : Indistinct view next next' := by
  have restored (m : Machine World) : m.manifest view =
      { m.unmarked with
        innerLoop := m.innerLoop
        flash := m.flash.shown
        interrupts :=
          { m.unmarked.interrupts with table := m.interrupts.table.marked m.innerLoop }
        world := view m.world } := rfl
  refine ⟨?_, table ▸ flash ▸ same.left, table' ▸ flash' ▸ same.right⟩
  rw [restored next, restored next', rest, loop, loop', table, table', flash, flash', world, world',
    same.table, same.flash.shown, same.innerLoop, same.alike.world]

theorem mirrors_oblivious {α : Type} {act : Action World α} (oblivious : Oblivious act) :
    Action.Mirrors (Indistinct view) act act := by
  refine ⟨fun m n same => ?_⟩
  have unmarked : m.unmarked = n.unmarked := congrArg (fun g => g.unmarked) same.shown
  obtain ⟨results, rest⟩ := oblivious.blind m n unmarked
  exact ⟨results, same.of_unmarked rest (oblivious.loop m) (oblivious.loop n) (oblivious.table m)
    (oblivious.table n) (oblivious.flash m) (oblivious.flash n) (oblivious.world m)
    (oblivious.world n)⟩

/-- What is done with a machine from outside. Operations call others on the way, who use the machine
in turn, as an environment of their own answers them. -/
inductive Usage (view : World → Outside) : {α : Type} → Action World α → Prop where
  | done {α : Type} (value : α) : Usage view (pure value)
  | andThen {α β : Type} {act : Action World α} {next : α → Action World β}
      (first : Usage view act) (rest : ∀ value, Usage view (next value)) :
      Usage view (act >>= next)
  /-- Look at the machine. -/
  | look {α : Type} {next : Machine World → Action World α}
      (blind : ∀ m n, Indistinct view m n → next m = next n) (rest : ∀ m, Usage view (next m)) :
      Usage view (get >>= next)
  /-- Change what is outside of the machine. -/
  | remember (change : World → World)
      (blind : ∀ world world', view world = view world' →
        view (change world) = view (change world')) :
      Usage view (modify fun m => { m with world := change m.world })
  /-- Use or change other parts of the machine. -/
  | aside {α : Type} {act : Action World α} (oblivious : Oblivious act) : Usage view act
  | loadProgram (program : Program) : Usage view (loadProgram program).run
  /-- Write to flash, or attach something to it. -/
  | edit {change : Flash → Except Fault Flash} (edit : Flash.Edit change) :
      Usage view (attempt fun m => return { m with flash := ← change m.flash }).run
  | remove {change : Flash → Flash × Bool} (removal : Flash.Removal change) :
      Usage view (answer fun m => ({ m with flash := (change m.flash).1 }, (change m.flash).2))
  /-- Change the interrupt table itself, which calls nobody. -/
  | vector {change : Table → Nat → Except Fault Table} (operation : VectorChange change)
      (vector : Nat) :
      Usage view (attempt fun m => return m.setTable (← change m.interrupts.table vector)).run
  | setTable {table : Table} (sound : table.Sound) :
      Usage view (modify fun m => m.setTable table)
  | setFlash {flash : Flash} (coherent : flash.Coherent) :
      Usage view (modify fun m => { m with flash })
  | operation {env : Environment World} (overlooks : env.Overlooks view)
      (notify : ∀ handle hook, Usage view (env.notify handle hook))
      (readDevice : ∀ handle, Usage view (env.readDevice handle))
      (writeDevice : ∀ handle value, Usage view (env.writeDevice handle value).run)
      (readDeviceBit : ∀ handle bit, Usage view (env.readDeviceBit handle bit))
      (writeDeviceBit : ∀ handle bit value, Usage view (env.writeDeviceBit handle bit value).run)
      {α : Type} {act : Action World α} (offers : Offers env act) : Usage view act

theorem mirrors_loadProgram (program : Program) :
    Attempt.Mirrors (Indistinct view) (loadProgram program : Attempt World Unit)
      (loadProgram program) := by
  refine .attempt fun m n same => ?_
  rw [same.alike.akin.flashSize]
  split
  · exact (same.flash.concur (.load 0 _)).map fun _ _ => same.withFlash
  · exact .error _

/-- Machines that cannot be told apart are used with the same results, and cannot be told apart
afterwards. -/
theorem Usage.mirrors {α : Type} {act : Action World α} (usage : Usage view act) :
    Action.Mirrors (Indistinct view) act act := by
  induction usage with
  | done value => exact .pure value
  | andThen _ _ first rest => exact .bind first rest
  | look blind _ rest => exact .getting fun m n same => blind m n same ▸ rest m
  | remember change blind =>
      exact .modify fun _ _ same => same.withWorld (blind _ _ same.alike.world)
  | aside oblivious => exact mirrors_oblivious oblivious
  | loadProgram program => exact (mirrors_loadProgram program).run
  | edit edit =>
      exact (Attempt.Mirrors.attempt fun _ _ same =>
        (same.flash.concur edit).map fun _ _ => same.withFlash).run
  | remove removal =>
      exact .answer (fun _ _ same => (same.flash.removal removal).2) fun _ _ same =>
        same.withFlash (same.flash.removal removal).1
  | vector operation vector =>
      exact (Attempt.Mirrors.attempt fun _ _ same =>
        (same.concur_vector operation vector).map fun _ _ => id).run
  | setTable sound =>
      exact .modify fun _ _ same => same.withTable (by rw [same.innerLoop]) sound sound
  | setFlash coherent => exact .modify fun _ _ same => same.withFlash ⟨rfl, coherent, coherent⟩
  | operation overlooks _ _ _ _ _ offers notify readDevice writeDevice readDeviceBit
      writeDeviceBit =>
      exact mirrors_offers
        { overlooks with
          notify
          readDevice
          writeDevice := fun handle value => ⟨writeDevice handle value⟩
          readDeviceBit
          writeDeviceBit := fun handle bit value => ⟨writeDeviceBit handle bit value⟩ } offers

end Machine

/-- Everyone who is called uses the machine from outside. -/
structure Environment.Involved {World Outside : Type} (env : Environment World)
    (view : World → Outside) : Prop extends env.Overlooks view where
  notify : ∀ handle hook, Machine.Usage view (env.notify handle hook)
  readDevice : ∀ handle, Machine.Usage view (env.readDevice handle)
  writeDevice : ∀ handle value, Machine.Usage view (env.writeDevice handle value).run
  readDeviceBit : ∀ handle bit, Machine.Usage view (env.readDeviceBit handle bit)
  writeDeviceBit : ∀ handle bit value, Machine.Usage view (env.writeDeviceBit handle bit value).run

namespace Machine

variable {World Outside : Type} {env : Environment World} {view : World → Outside}
  {m n : Machine World} {α β : Type}

namespace Usage

theorem perform (involved : env.Involved view) {act : Action World α} (offers : Offers env act) :
    Usage view act :=
  .operation involved.toOverlooks involved.notify involved.readDevice involved.writeDevice
    involved.readDeviceBit involved.writeDeviceBit offers

theorem lift {ε : Type} {act : Action World α} (usage : Usage view act) :
    Usage view (liftM act : ExceptT ε (Action World) α).run := by
  change Usage view (act >>= fun value => pure (Except.ok value))
  exact .andThen usage fun _ => .done _

theorem bind {ε : Type} {act : ExceptT ε (Action World) α}
    {next : α → ExceptT ε (Action World) β} (first : Usage view act.run)
    (rest : ∀ value, Usage view (next value).run) : Usage view (act >>= next).run := by
  change Usage view (act.run >>= ExceptT.bindCont next)
  refine .andThen first fun result => ?_
  cases result with
  | ok value => exact rest value
  | error fault => exact .done _

theorem tryCatch {ε : Type} {act : ExceptT ε (Action World) α}
    {handle : ε → ExceptT ε (Action World) α} (first : Usage view act.run)
    (rest : ∀ fault, Usage view (handle fault).run) : Usage view (tryCatch act handle).run := by
  have opened : (MonadExcept.tryCatch act handle).run = (act.run >>= fun result =>
      match result with
      | .ok value => pure (Except.ok value)
      | .error fault => (handle fault).run) := by
    funext m
    rw [Attempt.run_tryCatch]
    change _ = (match (act.run m).1 with
      | .ok value => pure (Except.ok value)
      | .error fault => (handle fault).run : Action World _) (act.run m).2
    rcases act.run m with ⟨fault | value, next⟩ <;> rfl
  rw [opened]
  refine .andThen first fun result => ?_
  cases result with
  | ok value => exact .done _
  | error fault => exact rest fault

/-- Flash is read without regard to what it remembers. -/
theorem reads (observe : Flash → α)
    (blind : ∀ f : Flash, f.Coherent → observe f.shown = observe f) :
    Usage view (do return observe (← get).flash : Action World α) :=
  .look (fun m n same => by
    rw [← blind m.flash same.left.2, same.flash.shown, blind n.flash same.right.2]) fun _ => .done _

theorem instr (address : Nat) :
    Usage view (do return (← get).flash.instr address : Action World _) :=
  .reads (·.instr address) fun _ coherent => coherent.instr_shown address

theorem hasBreakpoint (address : Nat) :
    Usage view (do return (← get).flash.hasBreakpoint address : Action World _) :=
  .reads (·.hasBreakpoint address) fun f _ => f.hasBreakpoint_shown address

theorem probeCount (address : Nat) :
    Usage view (do return (← get).flash.probeCount address : Action World _) :=
  .reads (·.probeCount address) fun f _ => f.probeCount_shown address

theorem describeFlash : Usage view (do return (← get).flash.describe : Action World _) :=
  .reads Flash.describe fun f _ => f.describe_shown

theorem setPause (pause : Pause) :
    Usage view (modify (Machine.setPause · pause) : Action World Unit) :=
  .aside
    { blind := fun _ _ same => ⟨rfl, congrArg (Machine.setPause · pause) same⟩
      loop := fun _ => rfl
      table := fun _ => rfl
      flash := fun _ => rfl
      world := fun _ => rfl }

theorem endRequest :
    Usage view (modify fun m => { m with stopRequested := false } : Action World Unit) :=
  .aside
    { blind := fun _ _ same => ⟨rfl, congrArg (fun m => { m with stopRequested := false }) same⟩
      loop := fun _ => rfl
      table := fun _ => rfl
      flash := fun _ => rfl
      world := fun _ => rfl }

variable (involved : env.Involved view)
include involved

theorem step : Usage view (Machine.step env).run :=
  perform involved (.operates (.step trivial))

theorem stepThrough : Usage view (Machine.stepThrough env).run := by
  refine tryCatch (step involved) fun broken => ?_
  cases broken with
  | breakpoint pc => exact step involved
  | «break» | stopped | timeout | failed fault => exact .done _

theorem stepIn : Usage view (Machine.stepIn env).run := by
  refine bind (lift (stepThrough involved)) fun result => ?_
  cases result with
  | ok value => exact lift (setPause .tripwire)
  | error broken =>
      dsimp only
      cases broken.verdict with
      | ok pause => exact lift (setPause pause)
      | error fault => exact bind (lift (setPause .unsuccessful)) fun _ => .done _

section Conditions

variable {Memory : Type} {condition : Memory → Action World (Bool × Memory)}
  (asks : ∀ memory, Usage view (condition memory))
include asks

theorem runSteps (bound : Nat) (memory : Memory) :
    Usage view (Machine.runSteps env condition bound memory) := by
  induction bound generalizing memory with
  | zero => exact .done _
  | succ bound inductionHypothesis =>
      refine .look (fun m n same => ?_) fun m => ?_
      · have requests : m.stopRequested = n.stopRequested :=
          congrArg (fun g => g.stopRequested) same.shown
        rw [requests]
      · split
        · exact .andThen endRequest fun _ => .andThen (perform involved .stop) fun _ => .done _
        · refine .andThen (asks memory) fun (holds, memory) => ?_
          dsimp only
          split
          · exact .done _
          · refine .andThen (step involved) fun result => ?_
            cases result with
            | ok value => exact inductionHypothesis memory
            | error broken => exact .done _

theorem runWhile (bound : Nat) (memory : Memory) :
    Usage view (Machine.runWhile env condition bound memory) := by
  refine .andThen (setPause .unsuccessful) fun _ => ?_
  refine .andThen (runSteps involved asks bound memory) fun (verdict, memory) => ?_
  refine .andThen ?_ fun _ => .done _
  match verdict with
  | some (.ok pause) => exact .andThen (setPause pause) fun _ => .done _
  | some (.error fault) => exact .done _
  | none => exact .done _

end Conditions

theorem run (bound : Nat) : Usage view (Machine.run env bound) :=
  .andThen (runWhile involved (fun _ => .done _) bound ()) fun _ => .done _

theorem runSome (limit : Nat) : Usage view (Machine.runSome env limit) :=
  .andThen (runWhile involved (fun _ => .done _) _ 0) fun _ => .done _

theorem runCycles (bound cycles : Nat) : Usage view (Machine.runCycles env bound cycles) := by
  refine .look (fun m n same => ?_) fun m => ?_
  · have ends : m.runEnd cycles = n.runEnd cycles := by rw [runEnd, runEnd, same.alike.akin.cycles]
    rw [ends]
  · refine .andThen (runWhile involved (fun _ => ?_) bound ()) fun _ => .done _
    exact .look (fun m n same => by rw [same.alike.akin.cycles]) fun _ => .done _

end Usage

end Machine

end Avr

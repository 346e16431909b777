import Avr.Proofs.Interrupt.Halves
import Avr.Proofs.Machine.Dispatch

/-!
Contract: what may happen to a machine that programs itself.

Owns:
- properties of the self-programming unit, its interrupt and the scheduled events, and the changes
  that they have to survive;
- the operations on a machine that call others on the way, and that they keep such properties;
- deeds: such operations between changes that leave the unit aside, where everyone who is called on
  the way does deeds again.

Which changes leave the unit aside, which vectors may be posted and who may step the machine are
parameters. A whole run is a deed.
-/

namespace Avr

open Avr.Interrupt Avr.Io Avr.Isa

namespace Machine

variable {World : Type} {env : Environment World} {P : Machine World → Prop} {Free : Nat → Prop}

/-! ### Properties of the unit -/

/-- Nothing changed that the unit or its interrupt has to do with. -/
structure Untouched (m next : Machine World) : Prop where
  part : next.part = m.part
  unit : next.spm.isSome = m.spm.isSome
  control : next.spmControl = m.spmControl
  interrupts : next.interrupts = m.interrupts
  io : next.io = m.io
  queue : next.clock.queue = m.clock.queue

/-- The page buffer is nothing to the control register. -/
theorem spmControl_fill (m : Machine World) (change : List UInt8 → List UInt8) :
    (m.modifySpm fun unit => { unit with buffer := change unit.buffer }).spmControl =
      m.spmControl := by
  rw [spmControl, spmControl, modifySpm]
  cases m.spm <;> rfl

/-- A property that survives single changes of everything but the control register. -/
structure UnitInvariant (P : Machine World → Prop) (Free : Nat → Prop) : Prop where
  untouched : ∀ m next, Untouched m next → P m → P next
  add : ∀ m event delay, P m → P (m.setQueue (m.clock.queue.add event delay))
  grant : ∀ m cycles, P m → P (m.setQueue (m.clock.queue.advance cycles))
  posting : ∀ m set vector table, Free vector →
    Half.flags.change set m.interrupts.table vector = .ok table → P m → P (m.setTable table)
  enabling : ∀ m set vector table,
    Half.mask.change set m.interrupts.table vector = .ok table → P m → P (m.setTable table)
  stale : ∀ m stale, P m → P (m.setTable { m.interrupts.table with stale })
  store : ∀ m register value, P m → P (m.setIoStored register value)

/-- A property that also survives writes of the control register and the passing of time, in every
environment that keeps it. -/
structure Standing (P : Machine World → Prop) (Free : Nat → Prop) : Prop
    extends UnitInvariant P Free where
  pairs : FreePairs (Itself P) Free
  control : ∀ env, env.Upholds P → ∀ value,
    Attempt.Respects (Keeps P) (writeSpmControl env value)
  passing : ∀ env, env.Upholds P → ∀ cycles, Action.Respects (Keeps P) (advance env cycles)

namespace UnitInvariant

variable (invariant : UnitInvariant P Free)
include invariant

/-- Changes of all other parts. -/
theorem edit {m next : Machine World} (holds : P m) (part : next.part = m.part)
    (spm : next.spm = m.spm) (interrupts : next.interrupts = m.interrupts) (io : next.io = m.io)
    (queue : next.clock.queue = m.clock.queue) : P next :=
  invariant.untouched m next
    ⟨part, by rw [spm], by rw [spmControl, spmControl, spm], interrupts, io, queue⟩ holds

theorem vector {m : Machine World} {change : Table → Nat → Except Fault Table} {vector : Nat}
    {table : Table} (holds : P m) (operation : VectorChange change) (free : Free vector)
    (changed : change m.interrupts.table vector = .ok table) : P (m.setTable table) := by
  cases operation with
  | post => exact invariant.posting m true vector table free changed holds
  | unpost => exact invariant.posting m false vector table free changed holds
  | enable => exact invariant.enabling m true vector table changed holds
  | disable => exact invariant.enabling m false vector table changed holds

theorem programInvariant (upholds : env.Upholds P) : ProgramInvariant env P Free where
  note _ holds := invariant.edit holds rfl rfl rfl rfl rfl
  instrument handle hook _ := upholds.notify handle hook
  add event delay := invariant.add _ event delay
  timeout holds := invariant.edit holds rfl rfl rfl rfl rfl
  vector := invariant.vector
  load holds _ := invariant.edit holds rfl rfl rfl rfl rfl
  settleIn _ _ holds := invariant.edit holds rfl rfl rfl rfl rfl
  addOwner _ holds := invariant.edit holds rfl rfl rfl rfl rfl
  dropOwner _ holds := invariant.edit holds rfl rfl rfl rfl rfl
  device handle hook _ := upholds.notify handle hook
  readDevice := upholds.readDevice
  writeDevice := upholds.writeDevice
  readDeviceBit := upholds.readDeviceBit
  writeDeviceBit := upholds.writeDeviceBit
  readOutside _ _ _ _ holds := invariant.edit holds rfl rfl rfl rfl rfl
  writeOutside _ _ _ _ holds := invariant.edit holds rfl rfl rfl rfl rfl
  compute _ _ holds _ := invariant.edit holds rfl rfl rfl rfl rfl
  allow {m} holds := invariant.edit (invariant.stale m true holds) rfl rfl rfl rfl rfl
  forbid holds := invariant.edit holds rfl rfl rfl rfl rfl

theorem accord (upholds : env.Upholds P) : Accord env (Itself P) Eq Free :=
  (invariant.programInvariant upholds).accord

theorem stepInvariant : StepInvariant P where
  jump _ holds := invariant.edit holds rfl rfl rfl rfl rfl
  count holds := invariant.edit holds rfl rfl rfl rfl rfl
  breaking holds := invariant.edit holds rfl rfl rfl rfl rfl
  wake holds := invariant.edit holds rfl rfl rfl rfl rfl
  spend holds := invariant.edit holds rfl rfl rfl rfl rfl
  rest holds := invariant.edit holds rfl rfl rfl rfl rfl
  halt holds := invariant.edit holds rfl rfl rfl rfl rfl
  fetch holds _ := invariant.edit holds rfl rfl rfl rfl rfl
  returned _ holds := invariant.edit holds rfl rfl rfl rfl rfl
  look _ holds := invariant.edit holds rfl rfl rfl rfl rfl
  stale stale := invariant.stale _ stale

theorem setStackPointer {m : Machine World} (value : UInt16) (holds : P m) :
    P (m.setStackPointer value) :=
  invariant.store _ _ _ (invariant.store _ _ _ holds)

theorem keeps_reset (upholds : env.Upholds P) : Action.Respects (Keeps P) (reset env) := by
  have resets (m : Machine World) (holds : P m) : P m.resetCore := by
    apply invariant.setStackPointer
    exact invariant.edit holds rfl rfl rfl rfl rfl
  exact .bind .get fun _ =>
    .bind ((invariant.accord upholds).mirrors_note _).keeps fun _ => .modify resets

theorem keeps_setEnabled (upholds : env.Upholds P) (vector : Nat) (enabled : Bool) :
    Attempt.Respects (Keeps P) (setEnabled env vector enabled) := by
  have accord := invariant.accord upholds
  have withstands (set : Bool) {m n : Machine World} : Itself P m n →
      Concur (fun table table' => Itself P (m.setTable table) (n.setTable table'))
        (Half.mask.change set m.interrupts.table vector)
        (Half.mask.change set n.interrupts.table vector) :=
    fun ⟨same, holds⟩ => same ▸ concur_itself fun _ changed =>
      ⟨rfl, invariant.enabling _ _ _ _ changed holds⟩
  cases enabled with
  | true => exact (accord.mirrors_changeVector rfl (withstands true)).keeps
  | false => exact (accord.mirrors_changeVector rfl (withstands false)).keeps

end UnitInvariant

/-! ### Operations -/

namespace Standing

variable (standing : Standing P Free)
include standing

theorem stepwise (upholds : env.Upholds P) : Stepwise env (Itself P) Eq Free := by
  have computing := (standing.programInvariant upholds).computing
  have controls (value : UInt8) := (standing.control env upholds value).itself
  have accesses := computing.accesses_of_freePairs controls standing.pairs
    fun _ _ ⟨same, holds⟩ => ⟨same ▸ rfl, standing.store _ _ _ holds⟩
  exact accesses.stepwise (standing.passing env upholds) standing.stepInvariant.toExecutionInvariant

/-- A step keeps the property if the store instruction does, should the step execute it. -/
theorem keeps_step (upholds : env.Upholds P) {m : Machine World} (holds : P m)
    (storing : executes? env m = some (.control .spm) →
      Attempt.Respects (Keeps P) (storeProgram env)) : P ((step env).run m).2 := by
  have changes := standing.stepInvariant
  have flagless (m : Machine World) (status : Status) (holds : P m) : P { m with status } :=
    standing.edit holds rfl rfl rfl rfl rfl
  refine (standing.stepwise upholds).keeps_step changes flagless holds fun i executes => ?_
  refine (standing.programInvariant upholds).computing.handles (fun _ _ holds => ?_)
    (fun spm => storing (spm ▸ executes)) fun _ _ holds => ?_
  · exact changes.returned true holds
  · exact standing.edit holds rfl rfl rfl rfl rfl

theorem keeps_setFlagBit (upholds : env.Upholds P) {pair : FlagPair} (free : FreePair Free pair)
    (bit : Nat) (set : Bool) : Attempt.Respects (Keeps P) (setFlagBit env pair bit set) :=
  ((standing.accord upholds).mirrors_setFlagBit free
    (fun _ ⟨same, holds⟩ => ⟨same ▸ rfl, standing.store _ _ _ holds⟩) bit set).keeps

end Standing

/-- An operation on a machine that calls others on the way. To post a vector directly, or with a flag
pair, is among them if the vector is one of those in `Free`. -/
inductive Operates (Free : Nat → Prop) (Steps : Environment World → Prop) (env : Environment World) :
    {α : Type} → Action World α → Prop where
  | readIo (register : Nat) : Operates Free Steps env (readIo env register)
  | readIoBit (register bit : Nat) : Operates Free Steps env (readIoBit env register bit)
  | readData (address : UInt16) : Operates Free Steps env (readData env address)
  | writeIo (register : Nat) (value : UInt8) : Operates Free Steps env (writeIo env register value).run
  | writeIoBit (register bit : Nat) (value : Bool) :
      Operates Free Steps env (writeIoBit env register bit value).run
  | writeData (address : UInt16) (value : UInt8) :
      Operates Free Steps env (writeData env address value).run
  | setPosted {vector : Nat} (posted : Bool) (free : Free vector) :
      Operates Free Steps env (setPosted env vector posted).run
  | setEnabled (vector : Nat) (enabled : Bool) :
      Operates Free Steps env (setEnabled env vector enabled).run
  | force {vector : Nat} (free : Free vector) : Operates Free Steps env (forceInterrupt env vector).run
  | setFlag {pair : FlagPair} (bit : Nat) (set : Bool) (free : FreePair Free pair) :
      Operates Free Steps env (setFlagBit env pair bit set).run
  | enableInterrupts : Operates Free Steps env (enableInterrupts env)
  | disableInterrupts : Operates Free Steps env (disableInterrupts env)
  | transition (id : Nat) (target : Int) :
      Operates Free Steps env (requestTransition env id target).run
  | advance (cycles : Nat) : Operates Free Steps env (advance env cycles)
  | reset : Operates Free Steps env (reset env)
  | step (steps : Steps env) : Operates Free Steps env (step env).run

variable {Steps : Environment World → Prop}

/-- An accord that withstands all such operations. -/
structure Operating (env : Environment World) (A : Machine World → Machine World → Prop)
    (Twin : HandleList → HandleList → Prop) (Free : Nat → Prop) (Steps : Environment World → Prop) :
    Prop extends Stepwise env A Twin Free where
  enabling : ∀ vector enabled,
    Attempt.Mirrors A (setEnabled env vector enabled) (setEnabled env vector enabled)
  flagging : ∀ {pair : FlagPair}, FreePair Free pair → ∀ bit set,
    Attempt.Mirrors A (setFlagBit env pair bit set) (setFlagBit env pair bit set)
  told : ∀ {m n vector pair bit sticky}, A m n →
    n.interrupts.notification? vector = some (.flag pair bit sticky) → FreePair Free pair
  restart : Action.Mirrors A (reset env) (reset env)
  step : Steps env → Action.Mirrors A (Machine.step env).run (Machine.step env).run

namespace Operating

variable {A : Machine World → Machine World → Prop} {Twin : HandleList → HandleList → Prop}
  (operating : Operating env A Twin Free Steps)
include operating

theorem mirrors_force {vector : Nat} (free : Free vector) :
    Attempt.Mirrors A (forceInterrupt env vector) (forceInterrupt env vector) :=
  .bind (operating.mirrors_setPosted true free) fun _ =>
    .lift (operating.mirrors_notifyForced vector fun same told =>
      (operating.flagging (operating.told same told) _ true).agree _ _ same)

theorem mirrors_operates {α : Type} {act : Action World α}
    (operates : Operates Free Steps env act) : Action.Mirrors A act act := by
  cases operates with
  | readIo register => exact operating.mirrors_readIo register
  | readIoBit register bit => exact operating.mirrors_readIoBit register bit
  | readData address => exact operating.mirrors_readData address
  | writeIo register value => exact (operating.mirrors_writeIo register value).run
  | writeIoBit register bit value => exact (operating.mirrors_writeIoBit register bit value).run
  | writeData address value => exact (operating.mirrors_writeData address value).run
  | setPosted posted free => exact (operating.mirrors_setPosted posted free).run
  | setEnabled vector enabled => exact (operating.enabling vector enabled).run
  | force free => exact (operating.mirrors_force free).run
  | setFlag bit set free => exact (operating.flagging free bit set).run
  | enableInterrupts => exact operating.mirrors_enableInterrupts
  | disableInterrupts => exact operating.mirrors_disableInterrupts
  | transition id target => exact (operating.mirrors_requestTransition id target).run
  | advance cycles => exact operating.mirrors_advance cycles
  | reset => exact operating.restart
  | step steps => exact operating.step steps

end Operating

theorem Standing.operating (standing : Standing P Free) (upholds : env.Upholds P)
    (steps : Steps env → Action.Respects (Keeps P) (step env).run) :
    Operating env (Itself P) Eq Free Steps where
  toStepwise := standing.stepwise upholds
  enabling vector enabled := (standing.keeps_setEnabled upholds vector enabled).itself
  flagging free bit set := (standing.keeps_setFlagBit upholds free bit set).itself
  told := standing.pairs.told
  restart := (standing.keeps_reset upholds).itself
  step steps' := (steps steps').itself

/-! ### Deeds -/

/-- What someone does to a machine. Operations call others in turn, as an environment of their own
answers them; changes in between are related by `Beside`. -/
inductive Deed (Beside : Machine World → Machine World → Prop) (Free : Nat → Prop)
    (Steps : Environment World → Prop) : {α : Type} → Action World α → Prop where
  | done {α : Type} (value : α) : Deed Beside Free Steps (pure value)
  | andThen {α β : Type} {act : Action World α} {next : α → Action World β}
      (first : Deed Beside Free Steps act) (rest : ∀ value, Deed Beside Free Steps (next value)) :
      Deed Beside Free Steps (act >>= next)
  | aside {α : Type} (act : Action World α) (beside : ∀ m, Beside m (act m).2) :
      Deed Beside Free Steps act
  | operation {env : Environment World}
      (notify : ∀ handle hook, Deed Beside Free Steps (env.notify handle hook))
      (readDevice : ∀ handle, Deed Beside Free Steps (env.readDevice handle))
      (writeDevice : ∀ handle value, Deed Beside Free Steps (env.writeDevice handle value).run)
      (readDeviceBit : ∀ handle bit, Deed Beside Free Steps (env.readDeviceBit handle bit))
      (writeDeviceBit : ∀ handle bit value,
        Deed Beside Free Steps (env.writeDeviceBit handle bit value).run)
      {α : Type} {act : Action World α} (operates : Operates Free Steps env act) :
      Deed Beside Free Steps act

end Machine

/-- Everyone who is called does deeds. -/
structure Environment.Does {World : Type} (env : Environment World)
    (Beside : Machine World → Machine World → Prop) (Free : Nat → Prop)
    (Steps : Environment World → Prop) : Prop where
  notify : ∀ handle hook, Machine.Deed Beside Free Steps (env.notify handle hook)
  readDevice : ∀ handle, Machine.Deed Beside Free Steps (env.readDevice handle)
  writeDevice : ∀ handle value, Machine.Deed Beside Free Steps (env.writeDevice handle value).run
  readDeviceBit : ∀ handle bit, Machine.Deed Beside Free Steps (env.readDeviceBit handle bit)
  writeDeviceBit : ∀ handle bit value,
    Machine.Deed Beside Free Steps (env.writeDeviceBit handle bit value).run

namespace Machine

variable {World : Type} {env : Environment World} {P : Machine World → Prop} {Free : Nat → Prop}
  {Beside : Machine World → Machine World → Prop} {Steps : Environment World → Prop}

theorem Deed.perform (does : env.Does Beside Free Steps) {α : Type} {act : Action World α}
    (operates : Operates Free Steps env act) : Deed Beside Free Steps act :=
  .operation does.notify does.readDevice does.writeDevice does.readDeviceBit does.writeDeviceBit
    operates

section Keeps

variable (standing : Standing P Free) (beside : ∀ m next, Beside m next → P m → P next)
  (steps : ∀ env : Environment World, env.Upholds P → Steps env →
    Action.Respects (Keeps P) (step env).run)
include standing beside steps

/-- Deeds keep what their operations and the changes in between keep. -/
theorem Deed.keeps {α : Type} {act : Action World α} (deed : Deed Beside Free Steps act) :
    Action.Respects (Keeps P) act := by
  induction deed with
  | done value => exact .pure value
  | andThen _ _ first rest => exact .bind first rest
  | aside act besides => exact ⟨fun m => beside m _ (besides m)⟩
  | operation _ _ _ _ _ operates notify readDevice writeDevice readDeviceBit writeDeviceBit =>
      have upholds : Environment.Upholds _ P :=
        { notify := notify
          readDevice := readDevice
          writeDevice := fun handle value => ⟨writeDevice handle value⟩
          readDeviceBit := readDeviceBit
          writeDeviceBit := fun handle bit value => ⟨writeDeviceBit handle bit value⟩ }
      exact ((standing.operating upholds (steps _ upholds)).mirrors_operates operates).keeps

theorem upholds_of_does (does : env.Does Beside Free Steps) : env.Upholds P where
  notify handle hook := (does.notify handle hook).keeps standing beside steps
  readDevice handle := (does.readDevice handle).keeps standing beside steps
  writeDevice handle value := ⟨(does.writeDevice handle value).keeps standing beside steps⟩
  readDeviceBit handle bit := (does.readDeviceBit handle bit).keeps standing beside steps
  writeDeviceBit handle bit value :=
    ⟨(does.writeDeviceBit handle bit value).keeps standing beside steps⟩

end Keeps

end Machine

end Avr

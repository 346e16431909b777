import Avr.Machine.Execute
import Avr.Proofs.SelfProgramming.Stage

/-!
Contract: what the operations of the self-programming unit do.

Owns:
- scheduling and cancelling of the events of the unit;
- arming and disarming through the control register;
- the store instruction with a fill or a page write armed.

Writing the control register calls watches and probes, which may let time pass until the operation
has timed out again. So what an operation leaves is given as a stage to which a later one belongs.
-/

namespace Avr.Machine

open Avr.Isa Avr.Time Avr.Io

variable {World : Type} {env : Environment World}

namespace Staged

variable {origin m : Machine World} {stage : Stage} (staged : Staged origin stage m)
include staged

theorem modifySpm (change : SelfProgramming → SelfProgramming) :
    Staged origin { stage with unit := change stage.unit } (m.modifySpm change) :=
  { staged with
    device := staged.device
    unit := congrArg (Option.map change) staged.unit }

theorem schedule (env : Environment World) {event : Event} (ofUnit : event.ofUnit = true)
    (once : event.once = true) (none : stage.queued = none) (delay : Nat) :
    Staged origin { stage with queued := some ⟨stage.cycle + delay, event⟩ }
      (Machine.schedule env event delay m).2 := by
  have noted := staged.elsewhere
    ((elsewhere_note env (.scheduled delay (m.cycles + delay))).related m)
  have added := DeltaQueue.selected_add noted.tidy event ofUnit delay
  rw [noted.queued, none] at added
  exact
    { noted with
      device := noted.device
      tidy := DeltaQueue.tidy_insert event delay noted.tidy
      queued := (List.perm_singleton.mp added).trans (by rw [← noted.cycle]; rfl)
      once := fun _ isEntry => Option.some.inj isEntry ▸ once }

/-- Nothing but the timeout of an armed operation is queued, and it is cancelled. -/
theorem cancelTimeout (env : Environment World)
    (only : ∀ entry ∈ stage.queued, entry.event = .spmReset) :
    Staged origin { stage with queued := none } (unschedule env .spmReset m).2 := by
  have removed : Staged origin { stage with queued := none }
      (m.setQueue (m.clock.queue.removeMatching fun queued => queued = .spmReset)) :=
    { staged with
      device := staged.device
      tidy := DeltaQueue.tidy_sweep _ 0 staged.tidy
      queued := by
        refine (DeltaQueue.selected_removeMatching _ _).trans ?_
        rw [staged.queued]
        refine List.filter_eq_nil_iff.mpr fun entry member => ?_
        simp [only entry (Option.mem_toList.mp member)]
      once := nofun }
  rw [unschedule]
  change Staged origin _ ((if _ then _ else _ : Action World Bool) _).2
  split
  · exact removed.elsewhere ((elsewhere_note env _).related _)
  · exact removed

end Staged

/-! ### The control register -/

theorem cleared_and_mask (control : UInt8) : control &&& ~~~operationMask &&& operationMask = 0 := by
  have apart : ~~~operationMask &&& operationMask = 0 := by decide
  rw [UInt8.and_assoc, apart, UInt8.and_zero]

theorem ofControl?_cleared (control : UInt8) :
    StoreOperation.ofControl? (control &&& ~~~operationMask) = none := by
  rw [StoreOperation.ofControl?, cleared_and_mask]
  rfl

/-- Disarming writes the value that stays in the register. -/
theorem armedValue_disarmed (unit : SelfProgramming) :
    armedValue (disarmed unit).control = (disarmed unit).control := by
  rw [disarmed, armedValue, ofControl?_cleared, UInt8.and_assoc, UInt8.and_self]

theorem run_writeSpmControl_of_armed {value : UInt8} {operation : StoreOperation}
    (armed : StoreOperation.ofControl? value = some operation) (m : Machine World) :
    let written := (schedule env .spmReset armedCycles
      (unschedule env .spmReset m).2).2.modifySpm fun unit => { unit with control := value }
    (writeSpmControl env value).run m =
      (setPosted env written.part.spmReady (reportsReady value)).run written := by
  have stays : armedValue value = value := by rw [armedValue, armed]
  rw [writeSpmControl, armed, stays]
  rfl

theorem run_clearOperation {m : Machine World} {unit : SelfProgramming}
    (isUnit : m.spm = some unit) :
    (clearOperation env).run m =
      (setPosted env m.part.spmReady (reportsReady (disarmed unit).control)).run
        (m.modifySpm disarmed) := by
  have clears : (clearOperation env).run m =
      (writeSpmControl env (m.spmControl &&& ~~~operationMask)).run m := rfl
  have value : m.spmControl &&& ~~~operationMask = (disarmed unit).control := by
    rw [spmControl, isUnit]
    rfl
  rw [clears, value, writeSpmControl, armedValue_disarmed, disarmed, ofControl?_cleared]
  have same : (m.modifySpm fun later => { later with control := (disarmed unit).control }) =
      m.modifySpm disarmed := by
    rw [modifySpm, modifySpm, isUnit]
    rfl
  rw [← same]
  rfl

/-- The stage at which a value arms an operation. Its timeout is queued. -/
def Stage.arm (stage : Stage) (value : UInt8) : Stage :=
  { stage with
    queued := some ⟨stage.cycle + armedCycles, .spmReset⟩
    unit := { stage.unit with control := value } }

/-- The stage at which no operation is armed. -/
def Stage.disarm (stage : Stage) : Stage :=
  { stage with unit := disarmed stage.unit }

namespace Staged

variable {origin m : Machine World} {stage : Stage} (staged : Staged origin stage m)
include staged

theorem writeSpmControl (distant : Distant env) (none : stage.queued = none) {value : UInt8}
    {operation : StoreOperation} (armed : StoreOperation.ofControl? value = some operation) :
    (((Machine.writeSpmControl env value).run m).1 = .ok () ↔
        origin.part.spmReady < origin.interrupts.table.size) ∧
      ∃ later, (stage.arm value).Later origin.flash.size later ∧
        Staged origin later ((Machine.writeSpmControl env value).run m).2 := by
  have emptied := staged.cancelTimeout env (none ▸ nofun)
  have written := (emptied.schedule env (rfl : Event.ofUnit .spmReset = true) rfl rfl
    armedCycles).modifySpm fun unit => { unit with control := value }
  rw [run_writeSpmControl_of_armed armed]
  generalize Machine.modifySpm _ _ = m' at written ⊢
  obtain ⟨posts, forward⟩ := distant.setPosted m'.part.spmReady (reportsReady value) m'
  rw [written.part, written.vectors] at posts
  exact ⟨written.part ▸ posts, forward.later written⟩

theorem clearOperation (distant : Distant env) :
    (((Machine.clearOperation env).run m).1 = .ok () ↔
        origin.part.spmReady < origin.interrupts.table.size) ∧
      ∃ later, stage.disarm.Later origin.flash.size later ∧
        Staged origin later ((Machine.clearOperation env).run m).2 := by
  have cleared := staged.modifySpm disarmed
  rw [run_clearOperation staged.unit]
  obtain ⟨posts, forward⟩ := distant.setPosted m.part.spmReady
    (reportsReady (disarmed stage.unit).control) (m.modifySpm disarmed)
  rw [cleared.vectors] at posts
  exact ⟨staged.part ▸ posts, forward.later cleared⟩

end Staged

theorem run_writeUnwatched_of_device {m : Machine World} {register : Nat}
    (device : m.kindAt register = some (.device .selfProgramming)) (value : UInt8) :
    (writeUnwatched env register value).run m = (writeSpmControl env value).run m := by
  have kind : m.io[register]?.map Register.kind = some (.device .selfProgramming) := device
  rw [writeUnwatched, Attempt.run_bind, Attempt.run_get]
  dsimp only
  rw [kind]
  rfl

theorem Staged.writeUnwatched {origin m : Machine World} {stage : Stage}
    (staged : Staged origin stage m) (distant : Distant env)
    (device : origin.kindAt origin.part.spmControl = some (.device .selfProgramming))
    (none : stage.queued = none) {value : UInt8} {operation : StoreOperation}
    (armed : StoreOperation.ofControl? value = some operation) :
    (((Machine.writeUnwatched env origin.part.spmControl value).run m).1 = .ok () ↔
        origin.part.spmReady < origin.interrupts.table.size) ∧
      ∃ later, (stage.arm value).Later origin.flash.size later ∧
        Staged origin later ((Machine.writeUnwatched env origin.part.spmControl value).run m).2 := by
  rw [run_writeUnwatched_of_device (staged.device device)]
  exact staged.writeSpmControl distant none armed

/-- What the watches of a register do around a write. -/
theorem run_writeIo (env : Environment World) (register : Nat) (value : UInt8)
    (m : Machine World) :
    (writeIo env register value).run m =
      match m.ioWatches? register with
      | none => (writeUnwatched env register value).run m
      | some watches =>
        let written := (writeUnwatched env register value).run
          (notifyAll env watches (.beforeIoWrite register value) m).2
        match written.1 with
        | .ok () =>
          (.ok (), (notifyAll env watches (.afterIoWrite register value) written.2).2)
        | .error fault => (.error fault, written.2) := by
  rw [writeIo, Attempt.run_bind, Attempt.run_get]
  dsimp only
  rcases m.ioWatches? register with _ | watches
  · rfl
  · dsimp only
    rw [Attempt.run_bind, Attempt.run_lift]
    dsimp only
    rw [Attempt.run_bind]
    rcases (writeUnwatched env register value).run _ with ⟨fault | _, after⟩ <;> rfl

/-- A write to the control register arms the operation that it names. It is refused only where no
vector tells that self-programming is ready. -/
theorem Staged.writeIo {origin m : Machine World} {stage : Stage} (staged : Staged origin stage m)
    (distant : Distant env)
    (device : origin.kindAt origin.part.spmControl = some (.device .selfProgramming))
    (none : stage.queued = none) {value : UInt8} {operation : StoreOperation}
    (armed : StoreOperation.ofControl? value = some operation) :
    (((Machine.writeIo env m.part.spmControl value).run m).1 = .ok () ↔
        origin.part.spmReady < origin.interrupts.table.size) ∧
      ∃ now later, stage.cycle ≤ now ∧
        Stage.Later origin.flash.size ({ stage with cycle := now }.arm value) later ∧
        Staged origin later ((Machine.writeIo env m.part.spmControl value).run m).2 := by
  obtain ⟨cycle, queued, unit, bytes⟩ := stage
  obtain rfl : queued = Option.none := none
  rw [staged.part, run_writeIo]
  split
  · obtain ⟨accepted, later, isLater, after⟩ := staged.writeUnwatched distant device rfl armed
    exact ⟨accepted, cycle, later, Nat.le_refl _, isLater, after⟩
  · next watches _ =>
    -- Time may pass in the watches before the write, and again in those after it.
    have called := (distant.forward_notifyAll watches
      (.beforeIoWrite origin.part.spmControl value)).related m
    obtain ⟨_, waited, before⟩ := called.later staged
    obtain ⟨now, passed, rfl⟩ := waited.of_none
    obtain ⟨accepted, later, isLater, after⟩ := before.writeUnwatched distant device rfl armed
    dsimp only
    generalize (Machine.writeUnwatched env origin.part.spmControl value).run _ = result
      at after accepted ⊢
    obtain ⟨fault | _, next⟩ := result
    · have refused : ¬ origin.part.spmReady < origin.interrupts.table.size :=
        fun vector => nomatch accepted.mpr vector
      exact ⟨iff_of_false nofun refused, now, later, passed, isLater, after⟩
    · obtain ⟨last, isLast, reached⟩ := ((distant.forward_notifyAll watches
        (.afterIoWrite origin.part.spmControl value)).related next).later after
      exact ⟨iff_of_true rfl (accepted.mp rfl), now, last, passed, isLater.trans isLast, reached⟩

/-! ### The store instruction -/

/-- One execution of a fill: the extended `Z`, and the two bytes. -/
structure Fill where
  address : Nat
  low : UInt8
  high : UInt8
deriving DecidableEq, Repr

/-- The page buffer after a fill of the word that the address has in its page. -/
def fillWord (size : Nat) (buffer : List UInt8) (fill : Fill) : List UInt8 :=
  fillBuffer buffer (fill.address % size / 2 * 2) fill.low fill.high

/-- The fill that a machine executes. -/
def currentFill (m : Machine World) : Fill :=
  ⟨m.extendedZ, m.reg 0, m.reg 1⟩

theorem run_execute_spm {m : Machine World} {unit : SelfProgramming} (isUnit : m.spm = some unit) :
    (execute env (.control .spm)).run m =
      match (performStore env unit).run m with
      | (.ok (), stored) => (.ok 1, { stored with pc := following m.pc (.control .spm) })
      | (.error fault, stored) => (.error fault, stored) := by
  have stores : (storeProgram env).run m = (performStore env unit).run m := by
    rw [storeProgram, Attempt.run_bind, Attempt.run_get]
    dsimp only
    rw [isUnit]
  have performs : (perform env (.control .spm) (following m.pc (.control .spm))).run m =
      (do
        storeProgram env
        return ⟨following m.pc (.control .spm), 1⟩ : Attempt World Outcome).run m := rfl
  rw [execute, Attempt.run_bind, Attempt.run_get]
  dsimp only
  rw [Attempt.run_bind, performs, Attempt.run_bind, stores]
  rcases (performStore env unit).run m with ⟨fault | _, stored⟩ <;> rfl

theorem run_performStore_fill {m cleared : Machine World} {unit : SelfProgramming}
    (armed : StoreOperation.ofControl? unit.control = some .fill)
    (clears : (clearOperation env).run m = (.ok (), cleared)) :
    (performStore env unit).run m =
      (.ok (), (unschedule env .spmReset (cleared.modifySpm fun later =>
        { later with buffer := fillWord m.part.pageSize later.buffer m.currentFill })).2) := by
  rw [performStore, Attempt.run_bind, Attempt.run_get]
  dsimp only
  rw [armed]
  dsimp only
  rw [Attempt.run_bind, clears]
  rfl

theorem run_performStore_write {m : Machine World} {unit : SelfProgramming}
    (armed : StoreOperation.ofControl? unit.control = some .write) :
    let kept := (unschedule env .spmReset m).2
    let erased := kept.modifySpm fun later => { later with buffer := erasedPage m.part.pageSize }
    (performStore env unit).run m =
      (.ok (), (schedule env
        (.pageOperation (m.extendedZ / m.part.pageSize * erased.part.pageSize) erased.part.pageSize
          (some ((kept.spm.map SelfProgramming.buffer).getD [])))
        (cyclesOfMillis erased.clock.hz pageMillis) erased).2) := by
  intro kept erased
  rw [performStore, Attempt.run_bind, Attempt.run_get]
  dsimp only
  rw [armed]
  rfl

namespace Staged

variable {origin m : Machine World} {stage : Stage} (staged : Staged origin stage m)
include staged

/-- Only the program counter changes with it. -/
theorem withPc (pc : Nat) : Staged origin stage { m with pc } :=
  staged.elsewhere (.of_eq rfl rfl rfl rfl rfl rfl)

/-- With a fill armed, the instruction fills one word of the page buffer. -/
theorem fills (distant : Distant env) (vector : origin.part.spmReady < origin.interrupts.table.size)
    (armed : StoreOperation.ofControl? stage.unit.control = some .fill)
    (only : ∀ entry ∈ stage.queued, entry.event = .spmReset) :
    ((execute env (.control .spm)).run m).1 = .ok 1 ∧ ∃ now control,
      Staged origin
        { stage with
          cycle := now
          queued := none
          unit := ⟨control, fillWord origin.part.pageSize stage.unit.buffer m.currentFill⟩ }
        ((execute env (.control .spm)).run m).2 := by
  obtain ⟨accepts, later, isLater, cleared⟩ := staged.clearOperation distant
  have accepted := accepts.mpr vector
  -- The timeout may fire while the unit is disarmed, which leaves the page buffer alone.
  obtain ⟨bytes, buffer, still⟩ := isLater.of_timeout only
  rw [run_execute_spm staged.unit, run_performStore_fill armed (Prod.ext accepted rfl)]
  have filled := (cleared.modifySpm fun unit =>
    { unit with buffer := fillWord m.part.pageSize unit.buffer m.currentFill }).cancelTimeout env
      still
  rw [bytes, buffer] at filled
  refine ⟨rfl, later.cycle, later.unit.control, withPc ?_ _⟩
  rw [← staged.part]
  exact filled

/-- With a write armed, the instruction hands the page buffer over to the completion. -/
theorem writes (env : Environment World)
    (armed : StoreOperation.ofControl? stage.unit.control = some .write)
    (only : ∀ entry ∈ stage.queued, entry.event = .spmReset) :
    ((execute env (.control .spm)).run m).1 = .ok 1 ∧
      Staged origin
        { stage with
          queued := some ⟨stage.cycle + cyclesOfMillis origin.clock.hz pageMillis,
            .pageOperation (m.extendedZ / origin.part.pageSize * origin.part.pageSize)
              origin.part.pageSize (some stage.unit.buffer)⟩
          unit := { stage.unit with buffer := erasedPage origin.part.pageSize } }
        ((execute env (.control .spm)).run m).2 := by
  have kept := staged.cancelTimeout env only
  have erased := kept.modifySpm fun later => { later with buffer := erasedPage m.part.pageSize }
  rw [run_execute_spm staged.unit, run_performStore_write armed]
  refine ⟨rfl, withPc ?_ _⟩
  rw [kept.unit, erased.part, erased.hz, staged.part]
  rw [staged.part] at erased
  exact erased.schedule env rfl rfl rfl _

end Staged

end Avr.Machine

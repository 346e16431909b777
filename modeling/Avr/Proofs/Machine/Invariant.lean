import Avr.Proofs.Machine.Instructions

/-!
Contract: what the operations of a machine keep true of it.

Owns:
- the single changes and calls that an invariant has to survive, those of timeouts apart;
- the invariant as an accord of a machine with itself;
- environments whose objects keep a property.
-/

namespace Avr

/-- Everything that is called keeps a property of the machine. -/
abbrev Environment.Upholds {World : Type} (env : Environment World) (P : Machine World → Prop) :
    Prop :=
  env.Within (Machine.Keeps P)

namespace Machine

variable {World : Type}

/-- A property that survives calls of instruments and every single change of background operations
that have nothing to do with timeouts. -/
structure QuietInvariant (env : Environment World) (P : Machine World → Prop)
    (Free : Nat → Prop) : Prop where
  note : ∀ {m} notice, P m → P { m with world := env.note notice m.world }
  instrument : ∀ handle hook, hook.isInstrument = true →
    Action.Respects (Keeps P) (env.notify handle hook)
  enqueue : ∀ {m} event delay, event.pauses = false → P m →
    P (m.setQueue (m.clock.queue.add event delay))
  vector : ∀ {m change vector table}, P m → VectorChange change → Free vector →
    change m.interrupts.table vector = .ok table → P (m.setTable table)
  load : ∀ {m offset values flash}, P m → m.flash.load offset values = .ok flash →
    P { m with flash }
  settleIn : ∀ {m} id state, P m → P (m.settleIn id state)
  addOwner : ∀ {m} id, P m → P (m.addOwner id)
  dropOwner : ∀ {m} id, P m → P (m.dropOwner id)

/-- A property that survives the changes of timeouts as well. -/
structure Invariant (env : Environment World) (P : Machine World → Prop) (Free : Nat → Prop) :
    Prop extends QuietInvariant env P Free where
  add : ∀ {m} event delay, P m → P (m.setQueue (m.clock.queue.add event delay))
  timeout : ∀ {m}, P m → P { m with halt := m.halt.or (some .timeout) }
  enqueue := fun event delay _ => add event delay

/-- A property that also survives what devices do and every change that a program makes outside of
its IO registers and the step. -/
structure QuietProgramInvariant (env : Environment World) (P : Machine World → Prop)
    (Free : Nat → Prop) : Prop extends QuietInvariant env P Free where
  device : ∀ handle hook, hook.isInstrument = false →
    Action.Respects (Keeps P) (env.notify handle hook)
  readDevice : ∀ handle, Action.Respects (Keeps P) (env.readDevice handle)
  writeDevice : ∀ handle value, Attempt.Respects (Keeps P) (env.writeDevice handle value)
  readDeviceBit : ∀ handle bit, Action.Respects (Keeps P) (env.readDeviceBit handle bit)
  writeDeviceBit : ∀ handle bit value,
    Attempt.Respects (Keeps P) (env.writeDeviceBit handle bit value)
  readOutside : ∀ {m} handle segment address blank, P m →
    P { m with world := (env.readOutside handle segment address blank m.world).2 }
  writeOutside : ∀ {m} handle segment address value, P m →
    P { m with world := env.writeOutside handle segment address value m.world }
  compute : ∀ {m : Machine World} bytes status, P m → status.i = m.status.i →
    P (m.compute bytes status)
  allow : ∀ {m}, P m → P m.allowed
  forbid : ∀ {m}, P m → P m.forbidden

/-- A property that survives the changes of timeouts beside those of a program. -/
structure ProgramInvariant (env : Environment World) (P : Machine World → Prop)
    (Free : Nat → Prop) : Prop extends Invariant env P Free, QuietProgramInvariant env P Free

variable {env : Environment World} {P : Machine World → Prop} {Free : Nat → Prop}

theorem concur_itself {σ : Type} {related : σ → σ → Prop} {part : Except Fault σ}
    (holds : ∀ next, part = .ok next → related next next) : Concur related part part := by
  cases part with
  | ok next => exact .ok (holds next rfl)
  | error fault => exact .error fault

theorem QuietInvariant.accord (invariant : QuietInvariant env P Free) :
    QuietAccord env (Itself P) Eq Free where
  akin := fun ⟨same, _⟩ => same ▸ .refl _
  twin := fun ⟨same, _⟩ _ => same ▸ rfl
  note _ := fun ⟨same, holds⟩ => ⟨same ▸ rfl, invariant.note _ holds⟩
  instruments hook instrument twin :=
    twin ▸ .forM (fun handle => (invariant.instrument handle hook instrument).itself) _
  enqueue _ _ calm := fun ⟨same, holds⟩ => ⟨same ▸ rfl, invariant.enqueue _ _ calm holds⟩
  vector := fun ⟨same, holds⟩ change free => same ▸ concur_itself fun _ changed =>
    ⟨rfl, invariant.vector holds change free changed⟩
  load _ _ := fun ⟨same, holds⟩ => same ▸ concur_itself fun _ loads =>
    ⟨rfl, invariant.load holds loads⟩
  settleIn _ _ := fun ⟨same, holds⟩ => ⟨same ▸ rfl, invariant.settleIn _ _ holds⟩
  addOwner _ := fun ⟨same, holds⟩ => ⟨same ▸ rfl, invariant.addOwner _ holds⟩
  dropOwner _ := fun ⟨same, holds⟩ => ⟨same ▸ rfl, invariant.dropOwner _ holds⟩

theorem Invariant.accord (invariant : Invariant env P Free) : Accord env (Itself P) Eq Free where
  toQuietAccord := invariant.toQuietInvariant.accord
  add _ _ := fun ⟨same, holds⟩ => ⟨same ▸ rfl, invariant.add _ _ holds⟩
  timeout := fun ⟨same, holds⟩ => ⟨same ▸ rfl, invariant.timeout holds⟩

theorem unconcerned_itself (queue : ∀ {m} queue, P m → P (m.setQueue queue))
    (spm : ∀ {m} change, P m → P (m.modifySpm change)) : Unconcerned (Itself P) where
  queue _ := fun ⟨same, holds⟩ => ⟨same ▸ rfl, queue _ holds⟩
  spm _ := fun ⟨same, holds⟩ => ⟨same ▸ rfl, spm _ holds⟩

theorem QuietProgramInvariant.computing (invariant : QuietProgramInvariant env P Free) :
    Computing env (Itself P) Eq Free where
  toQuietAccord := invariant.toQuietInvariant.accord
  device handle hook device := (invariant.device handle hook device).itself
  readDevice handle := (invariant.readDevice handle).itself
  writeDevice handle value := (invariant.writeDevice handle value).itself
  readDeviceBit handle bit := (invariant.readDeviceBit handle bit).itself
  writeDeviceBit handle bit value := (invariant.writeDeviceBit handle bit value).itself
  readOutside _ _ _ _ := fun ⟨same, holds⟩ =>
    ⟨same ▸ rfl, same ▸ rfl, invariant.readOutside _ _ _ _ holds⟩
  writeOutside _ _ _ _ := fun ⟨same, holds⟩ =>
    ⟨same ▸ rfl, invariant.writeOutside _ _ _ _ holds⟩
  compute _ _ := fun ⟨same, holds⟩ flag =>
    ⟨same ▸ rfl, invariant.compute _ _ holds (same ▸ flag)⟩
  allow := fun ⟨same, holds⟩ => ⟨same ▸ rfl, invariant.allow holds⟩
  forbid := fun ⟨same, holds⟩ => ⟨same ▸ rfl, invariant.forbid holds⟩

theorem ProgramInvariant.background (invariant : ProgramInvariant env P Free)
    (unconcerned : Unconcerned (Itself P)) (free : ∀ vector, Free vector) :
    Background env (Itself P) Eq Free :=
  invariant.computing.background invariant.accord unconcerned free

theorem ProgramInvariant.dispatching (invariant : ProgramInvariant env P Free)
    (unconcerned : Unconcerned (Itself P)) (free : ∀ vector, Free vector)
    (store : ∀ {m} register value, P m → P (m.setIoStored register value))
    (jump : ∀ {m : Machine World} pc, P m → P { m with pc }) (wake : ∀ {m}, P m → P m.awake) :
    Dispatching env (Itself P) Eq Free where
  toAccesses := invariant.computing.accesses unconcerned free
    fun _ _ ⟨same, holds⟩ => ⟨same ▸ rfl, store _ _ holds⟩
  mirrors_advance := (invariant.background unconcerned free).mirrors_advance
  jump _ := fun ⟨same, holds⟩ => ⟨same ▸ rfl, jump _ holds⟩
  wake := fun ⟨same, holds⟩ => ⟨same ▸ rfl, wake holds⟩

/-- A property that also survives the changes that make up the execution of an instruction. -/
structure ExecutionInvariant (P : Machine World → Prop) : Prop where
  jump : ∀ {m : Machine World} pc, P m → P { m with pc }
  count : ∀ {m : Machine World}, P m → P { m with instructionsRun := m.instructionsRun + 1 }
  breaking : ∀ {m : Machine World}, P m → P { m with state := .stopped, halt := some .break }
  wake : ∀ {m : Machine World}, P m → P m.awake
  spend : ∀ {m : Machine World}, P m → P { m with delayCycles := 0 }
  rest : ∀ {m : Machine World}, P m → P { m with innerLoop := false }
  halt : ∀ {m : Machine World}, P m → P { m with halt := none }
  fetch : ∀ {m : Machine World} {fetched flash}, P m → m.flash.fetch m.pc = .ok (fetched, flash) →
    P { m with flash }

/-- A property that also survives the changes that make up a step, apart from those of some
instructions. -/
structure StepInvariant (P : Machine World → Prop) : Prop extends ExecutionInvariant P where
  returned : ∀ {m : Machine World} justReturned, P m → P { m with justReturned }
  look : ∀ {m : Machine World} innerLoop, P m → P { m with innerLoop }
  stale : ∀ {m : Machine World} stale, P m →
    P (m.setTable { m.interrupts.table with stale })

theorem Accesses.stepwise (accesses : Accesses env (Itself P) Eq Free)
    (advances : ∀ cycles, Action.Respects (Keeps P) (advance env cycles))
    (changes : ExecutionInvariant P) : Stepwise env (Itself P) Eq Free where
  toAccesses := accesses
  mirrors_advance cycles := (advances cycles).itself
  jump _ := fun ⟨same, holds⟩ => ⟨same ▸ rfl, changes.jump _ holds⟩
  wake := fun ⟨same, holds⟩ => ⟨same ▸ rfl, changes.wake holds⟩
  count := fun ⟨same, holds⟩ => ⟨same ▸ rfl, changes.count holds⟩
  breaking := fun ⟨same, holds⟩ => ⟨same ▸ rfl, changes.breaking holds⟩
  spend := fun ⟨same, holds⟩ => ⟨same ▸ rfl, changes.spend holds⟩
  look := fun ⟨same, holds⟩ => ⟨same ▸ rfl, changes.rest holds⟩
  halt := fun ⟨same, holds⟩ => ⟨same ▸ rfl, changes.halt holds⟩

/-- An invariant may depend on neither the mark of a return nor on sleep, or the instruction does not
touch them. -/
theorem Computing.handles (computing : Computing env (Itself P) Eq Free) {i : Isa.Instr}
    (returned : i = .control .reti → ∀ m, P m → P { m with justReturned := true })
    (storing : i = .control .spm → Attempt.Respects (Keeps P) (storeProgram env))
    (doze : i = .control .sleep → ∀ m, P m → P m.asleep) : Handles env (Itself P) i :=
  computing.handling (fun reti _ _ ⟨same, holds⟩ => ⟨same ▸ rfl, returned reti _ holds⟩)
    (fun spm => (storing spm).itself)
    fun sleep _ _ ⟨same, holds⟩ => ⟨same ▸ rfl, doze sleep _ holds⟩

end Machine

end Avr

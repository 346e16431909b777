import Avr.Proofs.Machine.Step

/-!
Contract: properties of flash and of how executions end.

Owns:
- properties that survive what a program does to flash, and every change elsewhere;
- steps, and the parts of a step before its instruction, which keep them.

A program does not touch the record of how its last execution ended, nor requests from outside to
stop; whoever is called may.
-/

namespace Avr.Machine

variable {World : Type} {env : Environment World} {P : Machine World → Prop}

/-- A property that survives changes of everything but flash, the record of how the last execution
ended, and requests to stop, and survives writes of flash and fetches as well. -/
structure FlashInvariant (P : Machine World → Prop) : Prop where
  edit : ∀ {m next : Machine World}, P m → next.flash = m.flash → next.pause = m.pause →
    next.stopRequested = m.stopRequested → P next
  load : ∀ {m : Machine World} {offset values flash}, P m →
    m.flash.load offset values = .ok flash → P { m with flash }
  fetch : ∀ {m : Machine World} {fetched flash}, P m →
    m.flash.fetch m.pc = .ok (fetched, flash) → P { m with flash }

namespace FlashInvariant

variable (invariant : FlashInvariant P)
include invariant

theorem unconcerned : Unconcerned (Itself P) :=
  unconcerned_itself (fun _ holds => invariant.edit holds rfl rfl rfl)
    fun _ holds => invariant.edit holds rfl rfl rfl

theorem stepInvariant : StepInvariant P where
  jump _ holds := invariant.edit holds rfl rfl rfl
  count holds := invariant.edit holds rfl rfl rfl
  breaking holds := invariant.edit holds rfl rfl rfl
  wake holds := invariant.edit holds rfl rfl rfl
  spend holds := invariant.edit holds rfl rfl rfl
  rest holds := invariant.edit holds rfl rfl rfl
  halt holds := invariant.edit holds rfl rfl rfl
  fetch := invariant.fetch
  returned _ holds := invariant.edit holds rfl rfl rfl
  look _ holds := invariant.edit holds rfl rfl rfl
  stale _ holds := invariant.edit holds rfl rfl rfl

section Upholds

variable (upholds : env.Upholds P)
include upholds

theorem programInvariant : ProgramInvariant env P fun _ => True where
  note _ holds := invariant.edit holds rfl rfl rfl
  instrument handle hook _ := upholds.notify handle hook
  add _ _ holds := invariant.edit holds rfl rfl rfl
  timeout holds := invariant.edit holds rfl rfl rfl
  vector holds _ _ _ := invariant.edit holds rfl rfl rfl
  load := invariant.load
  settleIn _ _ holds := invariant.edit holds rfl rfl rfl
  addOwner _ holds := invariant.edit holds rfl rfl rfl
  dropOwner _ holds := invariant.edit holds rfl rfl rfl
  device handle hook _ := upholds.notify handle hook
  readDevice := upholds.readDevice
  writeDevice := upholds.writeDevice
  readDeviceBit := upholds.readDeviceBit
  writeDeviceBit := upholds.writeDeviceBit
  readOutside _ _ _ _ holds := invariant.edit holds rfl rfl rfl
  writeOutside _ _ _ _ holds := invariant.edit holds rfl rfl rfl
  compute _ _ holds _ := invariant.edit holds rfl rfl rfl
  allow holds := invariant.edit holds rfl rfl rfl
  forbid holds := invariant.edit holds rfl rfl rfl

theorem accesses : Accesses env (Itself P) Eq fun _ => True :=
  (invariant.programInvariant upholds).computing.accesses invariant.unconcerned (fun _ => trivial)
    fun _ _ ⟨same, holds⟩ => ⟨same ▸ rfl, invariant.edit holds rfl rfl rfl⟩

theorem background : Background env (Itself P) Eq fun _ => True :=
  (invariant.programInvariant upholds).background invariant.unconcerned fun _ => trivial

theorem stepwise : Stepwise env (Itself P) Eq fun _ => True :=
  (invariant.accesses upholds).stepwise
    (fun cycles => ((invariant.background upholds).mirrors_advance cycles).keeps)
    invariant.stepInvariant.toExecutionInvariant

variable {m : Machine World} (holds : P m)
include holds

/-- The machine on which a step comes to its instruction. -/
theorem polled : P ((pollInterrupts env).run (spendDelay env m).2).2 := by
  have stepwise := invariant.stepwise upholds
  have spent : P (spendDelay env m).2 := stepwise.mirrors_spendDelay.keeps.related m holds
  exact (stepwise.keeps_pollInterrupts invariant.stepInvariant).run.related _ spent

theorem step : P ((Machine.step env).run m).2 := by
  have stores := (invariant.background upholds).mirrors_storeProgram.keeps
  apply (invariant.stepwise upholds).keeps_step invariant.stepInvariant _ holds
  · intro i _
    apply (invariant.programInvariant upholds).computing.handles
    · exact fun _ _ holds => invariant.edit holds rfl rfl rfl
    · exact fun _ => stores
    · exact fun _ _ holds => invariant.edit holds rfl rfl rfl
  · exact fun _ _ holds => invariant.edit holds rfl rfl rfl

end Upholds

end FlashInvariant

end Avr.Machine

import Avr.Machine.IoAccess
import Avr.Proofs.Flash.Coherence
import Avr.Proofs.Interrupt.Masked
import Avr.Proofs.Machine.Passing

/-!
Contract: what goes on beside the self-programming unit of a machine.

Owns:
- the events of the unit: the timeout of an armed operation and the completion of a page;
- steps that leave the unit, the bytes of flash and the time alone.

Instructions may be fetched, probed and guarded by breakpoints meanwhile, since a slot of flash can
change without its bytes.
-/

namespace Avr

namespace Time

/-- The event belongs to the self-programming unit, once or periodically. -/
def Event.ofUnit : Event → Bool
  | .spmReset | .pageOperation .. => true
  | .periodic _ event _ => event.ofUnit
  | _ => false

/-- The event does not repeat itself. -/
def Event.once : Event → Bool
  | .periodic .. => false
  | _ => true

end Time

namespace Machine

open Avr.Time Avr.Io

variable {World : Type}

/-- The part, the frequency and the number of vectors are what they were, and a control register
stays one. -/
structure Framed (m next : Machine World) : Prop where
  part : next.part = m.part
  hz : next.clock.hz = m.clock.hz
  vectors : next.interrupts.table.size = m.interrupts.table.size
  device : m.kindAt m.part.spmControl = some (.device .selfProgramming) →
    next.kindAt m.part.spmControl = some (.device .selfProgramming)

instance : IsPreorder (Machine World) Framed where
  refl _ := ⟨rfl, rfl, rfl, id⟩
  trans _ _ _ first rest :=
    { part := rest.part.trans first.part
      hz := rest.hz.trans first.hz
      vectors := rest.vectors.trans first.vectors
      device := fun device => first.part ▸ rest.device (first.part.symm ▸ first.device device) }

/-- The time, the unit and the bytes of flash are left alone. -/
structure Elsewhere (m next : Machine World) : Prop
    extends Momentary Event.ofUnit m next, Framed m next where
  flash : ∀ {size bytes}, m.flash.Sound size bytes → next.flash.Sound size bytes
  unit : next.spm = m.spm

instance : IsPreorder (Machine World) Elsewhere where
  refl m := ⟨.of_eq rfl, refl_of Framed m, id, rfl⟩
  trans _ _ _ first rest :=
    ⟨first.toMomentary.trans rest.toMomentary, trans_of Framed first.toFramed rest.toFramed,
      rest.flash ∘ first.flash, rest.unit.trans first.unit⟩

namespace Elsewhere

variable {m next : Machine World}

/-- Events of others come or go. -/
theorem of_momentary {queue : DeltaQueue Event}
    (momentary : Momentary Event.ofUnit m (m.setQueue queue)) : Elsewhere m (m.setQueue queue) :=
  ⟨momentary, ⟨rfl, rfl, rfl, id⟩, id, rfl⟩

theorem of_table {table : Interrupt.Table} (size : table.size = m.interrupts.table.size) :
    Elsewhere m (m.setTable table) :=
  ⟨.of_eq rfl, ⟨rfl, rfl, size, id⟩, id, rfl⟩

/-- Everything that the unit depends on is what it was. -/
theorem of_eq (clock : next.clock = m.clock) (flash : next.flash = m.flash)
    (unit : next.spm = m.spm) (part : next.part = m.part)
    (interrupts : next.interrupts = m.interrupts) (io : next.io = m.io) : Elsewhere m next where
  toMomentary := .of_eq clock
  part := part
  hz := by rw [clock]
  vectors := by rw [interrupts]
  device := by rw [kindAt, kindAt, io]; exact id
  flash := by rw [flash]; exact id
  unit := unit

end Elsewhere

theorem elsewhere_note (env : Environment World) (notice : Notice) :
    Action.Respects Elsewhere (note env notice) :=
  .modify fun _ => .of_eq rfl rfl rfl rfl rfl rfl

theorem elsewhere_schedule (env : Environment World) {event : Event}
    (other : event.ofUnit = false) (delay : Nat) :
    Action.Respects Elsewhere (schedule env event delay) :=
  .bind .get fun _ => .bind (elsewhere_note env _) fun _ =>
    .modify fun m => .of_momentary (.add other delay m)

theorem elsewhere_timeout (env : Environment World) : Action.Respects Elsewhere (timeout env) :=
  .bind .get fun _ => .bind (elsewhere_note env _) fun _ =>
    .modify fun _ => .of_eq rfl rfl rfl rfl rfl rfl

theorem elsewhere_setReg (m : Machine World) (r : Isa.Reg) (value : UInt8) :
    Elsewhere m (m.setReg r value) :=
  .of_eq rfl rfl rfl rfl rfl rfl

theorem elsewhere_setPointer (m : Machine World) (p : Isa.Pointer) (value : UInt16) :
    Elsewhere m (m.setPointer p value) :=
  trans_of Elsewhere (elsewhere_setReg m p.low _) (elsewhere_setReg _ (pairHigh p.low) _)

end Machine

end Avr

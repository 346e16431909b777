import Avr.Proofs.Machine.Indistinct
import Avr.Proofs.Machine.Stack

/-!
Contract: what a reset keeps, and what it leaves of the run before it.

Owns:
- everything that a reset keeps;
- machines that are the same after a reset, as far as can be told, because they agree on that.

The stored bytes of the stack pointer are not kept, although they lie in IO registers. What flash
remembers is kept but says nothing that the bytes do not say; the pending vectors follow from the
posted and enabled ones.
-/

namespace Avr

namespace Interrupt.Controller

/-- The table and everyone who follows it, without what follows from the posted and enabled vectors
and without the mark. -/
def lasting (c : Controller) : Controller :=
  { c with table := { c.table with pending := 0, stale := false } }

/-- The controller with the pending vectors that follow. -/
def refilled (c : Controller) : Controller :=
  { c with table := { c.table with pending := c.table.posted &&& c.table.enabled } }

theorem refilled_lasting {c : Controller} (sound : c.table.Sound) :
    c.lasting.refilled = { c with table := c.table.marked false } := by
  simp only [refilled, lasting, ← sound.pending_eq]
  rfl

end Interrupt.Controller

namespace Machine

open Avr.Io

variable {World Outside : Type} {env : Environment World} {view : World → Outside}
  {m n : Machine World}

/-- The machines agree on everything that a reset keeps. -/
structure Kept (m n : Machine World) : Prop where
  part : m.part = n.part
  settings : m.settings = n.settings
  /-- The watches and the receiver of accesses outside, but not the bytes. -/
  data : { m.data with bytes := #[] } = { n.data with bytes := #[] }
  /-- All IO registers with their watches, but not the stored bytes of the stack pointer. -/
  io : (m.setStackPointer 0).io = (n.setStackPointer 0).io
  spm : m.spm = n.spm
  program : m.flash.segment = n.flash.segment
  /-- Probes and breakpoints, but not whether a breakpoint has fired. -/
  attached : m.flash.slots.map Flash.held = n.flash.slots.map Flash.held
  /-- The posted and enabled vectors, and everyone who follows them. -/
  interrupts : m.interrupts.lasting = n.interrupts.lasting
  clock : m.clock = n.clock
  probes : m.probes = n.probes
  stateMachines : m.stateMachines = n.stateMachines

/-- A reset keeps what it is said to keep. -/
theorem kept_resetCore (m : Machine World) : Kept m m.resetCore where
  part := rfl
  settings := rfl
  data := rfl
  io := by
    rw [resetCore, setStackPointer_setStackPointer]
    rfl
  spm := rfl
  program := rfl
  attached := (Flash.map_held_rearm m.flash).symm
  interrupts := rfl
  clock := rfl
  probes := rfl
  stateMachines := rfl

theorem io_setStackPointer (m : Machine World) (value : UInt16) :
    (m.setStackPointer value).io =
      (m.io.modify m.part.stackLow (Register.store · (UInt8.ofNat value.toNat))).modify
        m.part.stackHigh (Register.store · (UInt8.ofNat (value.toNat / 256))) := rfl

theorem Kept.setStackPointer (kept : Kept m n) (value : UInt16) :
    (m.setStackPointer value).io = (n.setStackPointer value).io := by
  have parts : (m.setStackPointer 0).part = (n.setStackPointer 0).part := kept.part
  rw [← setStackPointer_setStackPointer m 0, ← setStackPointer_setStackPointer n 0,
    io_setStackPointer (m.setStackPointer 0), io_setStackPointer (n.setStackPointer 0), kept.io, parts]

/-- What was kept is all that can be told after a reset. -/
theorem Kept.resetCore (kept : Kept m n) (worlds : view m.world = view n.world)
    (left : m.WellFormed) (right : n.WellFormed) : Indistinct view m.resetCore n.resetCore := by
  have flashes := Flash.same_rearm left.flash right.flash kept.program kept.attached
  refine ⟨?_, ⟨left.table, flashes.left⟩, ⟨right.table, flashes.right⟩⟩
  have io : (m.setStackPointer m.part.stackTop).io = (n.setStackPointer n.part.stackTop).io := by
    rw [kept.setStackPointer, kept.part]
  have data : m.resetCore.data = n.resetCore.data := by
    have bytes := congrArg
      (fun data : Memory.Segment =>
        { data with bytes := clearedData n.part n.settings.fill }) kept.data
    change { m.data with bytes := clearedData m.part m.settings.fill } = _
    rw [kept.part, kept.settings]
    exact bytes
  have interrupts : { m.interrupts with table := m.interrupts.table.marked false } =
      { n.interrupts with table := n.interrupts.table.marked false } := by
    rw [← Interrupt.Controller.refilled_lasting left.table, kept.interrupts,
      Interrupt.Controller.refilled_lasting right.table]
  rw [manifest, manifest, Machine.mk.injEq]
  exact ⟨rfl, rfl, data, rfl, rfl, rfl, rfl, rfl, rfl, rfl, rfl, rfl, io, flashes.shown,
    interrupts, kept.clock, kept.spm, kept.part, kept.settings, kept.probes, kept.stateMachines,
    worlds⟩

/-- Machines that cannot be told apart agree on what a reset keeps. -/
theorem Indistinct.kept (same : Indistinct view m n) : Kept m n where
  part := same.alike.akin.part
  settings := same.alike.akin.settings
  data := congrArg (fun g => { g.data with bytes := #[] }) same.shown
  io := congrArg (fun g => (g.setStackPointer 0).io) same.shown
  spm := same.alike.akin.spm
  program := same.flash.segment
  attached := by
    rw [← Flash.map_held_shown m.flash, same.flash.shown, Flash.map_held_shown]
  interrupts := congrArg (fun g => g.interrupts.lasting) same.shown
  clock := same.alike.akin.clock
  probes := congrArg (fun g => g.probes) same.shown
  stateMachines := congrArg (fun g => g.stateMachines) same.shown

theorem mirrors_reset (impartial : env.Impartial view) :
    Action.Mirrors (Indistinct view) (reset env) (reset env) := by
  refine .getting fun m n same => ?_
  rw [same.alike.akin.cycles]
  refine .bind ((accord_indistinct impartial).mirrors_note _) fun _ => .modify fun m n same => ?_
  exact same.kept.resetCore same.alike.world ⟨same.left.1, same.left.2⟩
    ⟨same.right.1, same.right.2⟩

/-- Whatever else the runs before have left, a reset leaves machines that cannot be told apart. -/
theorem Kept.reset (kept : Kept m n) (overlooks : env.Overlooks view)
    (worlds : view m.world = view n.world) (left : m.WellFormed) (right : n.WellFormed) :
    Indistinct view (reset env m).2 (reset env n).2 := by
  have cycles : m.cycles = n.cycles := by rw [Machine.cycles, Machine.cycles, kept.clock]
  have noted : view (env.note (.reset m.cycles) m.world) =
      view (env.note (.reset n.cycles) n.world) := cycles ▸ overlooks.note _ worlds
  exact Kept.resetCore
    (m := { m with world := env.note (.reset m.cycles) m.world })
    (n := { n with world := env.note (.reset n.cycles) n.world })
    { kept with } noted ⟨left.table, left.flash⟩ ⟨right.table, right.flash⟩

end Machine

end Avr

import Avr.Machine.Step

/-!
Contract: what of a machine its program can depend on.

Owns:
- the machine without its instruments: probes and watches with the wrappers that hold them,
  breakpoints, decoded slots, and the marks of the interrupt check;
- the machine without marks, slots and world, to which its instruments belong;
- machines that are alike apart from their instruments, and what a step goes by on them;
- what machines on which a step goes by the same have in common.

The world is seen through a view, so that what instruments have recorded does not count.
-/

namespace Avr

open Avr.Io Avr.Isa

/-! ### Without instruments -/

namespace Memory.Segment

def bare (s : Segment) : Segment :=
  { s with watches := none }

end Memory.Segment

namespace Flash

def bare (f : Flash) : Flash where
  segment := f.segment.bare
  slots := Array.replicate f.slots.size .empty

end Flash

namespace Interrupt.Controller

def bare (c : Controller) : Controller :=
  { c with
    table := { c.table with stale := false }
    probes := c.probes.map fun _ => []
    globalProbes := [] }

end Interrupt.Controller

namespace Automaton.StateMachine

def bare (automaton : StateMachine) : StateMachine :=
  { automaton with probes := [], stateProbes := automaton.stateProbes.map fun _ => [] }

section Bare

variable {automaton automaton' : StateMachine} (same : automaton.bare = automaton'.bare)
include same

theorem name_of_bare : automaton.name = automaton'.name :=
  (congrArg name same : automaton.bare.name = automaton'.bare.name)

theorem current_of_bare : automaton.current = automaton'.current :=
  (congrArg current same : automaton.bare.current = automaton'.bare.current)

theorem owners_of_bare : automaton.owners = automaton'.owners :=
  (congrArg owners same : automaton.bare.owners = automaton'.bare.owners)

theorem accept_of_bare (target : Int) : automaton.accept target = automaton'.accept target :=
  (congrArg (accept · target) same : automaton.bare.accept target = automaton'.bare.accept target)

end Bare

end Automaton.StateMachine

namespace Io.Register

def stripped (register : Register) : Register :=
  .bare register.kind

end Io.Register

namespace Machine

variable {World Outside : Type}

/-- The machine without its instruments. -/
def guest (view : World → Outside) (m : Machine World) : Machine Outside :=
  { m with
    data := m.data.bare
    innerLoop := false
    io := m.io.map Register.stripped
    flash := m.flash.bare
    interrupts := m.interrupts.bare
    probes := []
    stateMachines := m.stateMachines.map Automaton.StateMachine.bare
    world := view m.world }

/-- The machine without the marks of the interrupt check, the slots of its flash, and its world. -/
def unmarked (m : Machine World) : Machine Unit :=
  { m with
    innerLoop := false
    flash := { m.flash with slots := #[] }
    interrupts := { m.interrupts with table := { m.interrupts.table with stale := false } }
    world := () }

/-- The machines differ in their instruments only. -/
def Alike (view : World → Outside) (m n : Machine World) : Prop :=
  m.guest view = n.guest view

variable {view : World → Outside} {m n : Machine World}

theorem Alike.refl (view : World → Outside) (m : Machine World) : Alike view m m :=
  Eq.refl _

theorem Alike.symm (alike : Alike view m n) : Alike view n m :=
  Eq.symm alike

theorem Alike.trans {last : Machine World} (alike : Alike view m n) (rest : Alike view n last) :
    Alike view m last :=
  Eq.trans alike rest

theorem Alike.world (alike : Alike view m n) : view m.world = view n.world :=
  congrArg (fun g => g.world) alike

theorem Alike.flash (alike : Alike view m n) : m.flash.bare = n.flash.bare :=
  congrArg (fun g => g.flash) alike

/-- The machine as a step goes by it: without its instruments, its world, and the record of how its
last execution ended. -/
def core (m : Machine World) : Machine Unit :=
  { m.guest (fun _ => ()) with pause := .unsuccessful }

/-- A step goes by the same on both machines. -/
def Akin (m n : Machine World) : Prop :=
  m.core = n.core

theorem Akin.refl (m : Machine World) : Akin m m :=
  Eq.refl _

theorem Alike.akin (alike : Alike view m n) : Akin m n :=
  congrArg
    (fun g : Machine Outside =>
      ({ g with pause := .unsuccessful, world := () } : Machine Unit)) alike

/-! ### What akin machines have in common -/

theorem Akin.pc (akin : Akin m n) : m.pc = n.pc :=
  congrArg (fun g => g.pc) akin

theorem Akin.status (akin : Akin m n) : m.status = n.status :=
  congrArg (fun g => g.status) akin

theorem Akin.sleeping (akin : Akin m n) : m.sleeping = n.sleeping :=
  congrArg (fun g => g.sleeping) akin

theorem Akin.state (akin : Akin m n) : m.state = n.state :=
  congrArg (fun g => g.state) akin

theorem Akin.justReturned (akin : Akin m n) : m.justReturned = n.justReturned :=
  congrArg (fun g => g.justReturned) akin

theorem Akin.delayCycles (akin : Akin m n) : m.delayCycles = n.delayCycles :=
  congrArg (fun g => g.delayCycles) akin

theorem Akin.halt (akin : Akin m n) : m.halt = n.halt :=
  congrArg (fun g => g.halt) akin

theorem Akin.clock (akin : Akin m n) : m.clock = n.clock :=
  congrArg (fun g => g.clock) akin

theorem Akin.spm (akin : Akin m n) : m.spm = n.spm :=
  congrArg (fun g => g.spm) akin

theorem Akin.part (akin : Akin m n) : m.part = n.part :=
  congrArg (fun g => g.part) akin

theorem Akin.settings (akin : Akin m n) : m.settings = n.settings :=
  congrArg (fun g => g.settings) akin

theorem Akin.data (akin : Akin m n) : m.data.bare = n.data.bare :=
  congrArg (fun g => g.data) akin

theorem Akin.bytes (akin : Akin m n) : m.data.bytes = n.data.bytes :=
  congrArg (fun g => g.data.bytes) akin

theorem Akin.flashSegment (akin : Akin m n) :
    m.flash.segment.bare = n.flash.segment.bare :=
  congrArg (fun g => g.flash.segment) akin

theorem Akin.notification? (akin : Akin m n) (vector : Nat) :
    m.interrupts.notification? vector = n.interrupts.notification? vector :=
  congrArg (fun g => g.interrupts.notification? vector) akin

theorem Akin.pending (akin : Akin m n) :
    m.interrupts.table.pending = n.interrupts.table.pending :=
  congrArg (fun g => g.interrupts.table.pending) akin

theorem Akin.io (akin : Akin m n) :
    m.io.map Register.stripped = n.io.map Register.stripped :=
  congrArg (fun g => g.io) akin

theorem Akin.ioSize (akin : Akin m n) : m.io.size = n.io.size := by
  have sizes := congrArg Array.size akin.io
  rwa [Array.size_map, Array.size_map] at sizes

/-- Under their wrappers the registers are equal. -/
theorem Akin.kind (akin : Akin m n) (register : Nat) :
    m.io[register]?.map Register.kind = n.io[register]?.map Register.kind := by
  have same := congrArg (fun io => io[register]?.map Register.kind) akin.io
  have underneath : Register.kind ∘ Register.stripped = Register.kind := rfl
  simpa only [Array.getElem?_map, Option.map_map, underneath] using same

theorem Akin.stored? (akin : Akin m n) (register : Nat) :
    m.io[register]?.bind Register.stored? = n.io[register]?.bind Register.stored? := by
  have kinds (m : Machine World) : m.io[register]?.bind Register.stored? =
      (m.io[register]?.map Register.kind).bind Kind.stored? := by
    cases m.io[register]? <;> rfl
  rw [kinds, kinds, akin.kind]

theorem Akin.stateMachine? (akin : Akin m n) (id : Nat) :
    m.stateMachines[id]?.map Automaton.StateMachine.bare =
      n.stateMachines[id]?.map Automaton.StateMachine.bare := by
  have same := congrArg (fun g => g.stateMachines[id]?) akin
  simpa only [core, guest, Array.getElem?_map] using same

/-! ### What akin machines compute from it -/

theorem Akin.first? (akin : Akin m n) :
    m.interrupts.table.first? = n.interrupts.table.first? := by
  rw [Interrupt.Table.first?, Interrupt.Table.first?, akin.pending]

theorem Akin.cycles (akin : Akin m n) : m.cycles = n.cycles := by
  rw [Machine.cycles, Machine.cycles, akin.clock]

theorem Akin.reg (akin : Akin m n) (r : Reg) : m.reg r = n.reg r := by
  rw [Machine.reg, Machine.reg, byteAt, byteAt, akin.bytes]

theorem Akin.pointer (akin : Akin m n) (p : Pointer) : m.pointer p = n.pointer p := by
  rw [Machine.pointer, Machine.pointer, pair, pair, akin.reg, akin.reg]

theorem Akin.ioStored (akin : Akin m n) (register : Nat) :
    m.ioStored register = n.ioStored register := by
  rw [Machine.ioStored, Machine.ioStored, akin.stored?]

theorem Akin.stackPointer (akin : Akin m n) : m.stackPointer = n.stackPointer := by
  rw [Machine.stackPointer, Machine.stackPointer, akin.part, akin.ioStored, akin.ioStored]

theorem Akin.extendedZ (akin : Akin m n) : m.extendedZ = n.extendedZ := by
  rw [Machine.extendedZ, Machine.extendedZ, akin.part, akin.ioStored, akin.pointer]

theorem Akin.spmControl (akin : Akin m n) : m.spmControl = n.spmControl := by
  rw [Machine.spmControl, Machine.spmControl, akin.spm]

theorem Akin.ioIndex? (akin : Akin m n) (address : Nat) :
    m.ioIndex? address = n.ioIndex? address := by
  rw [Machine.ioIndex?, Machine.ioIndex?, akin.part, akin.ioSize]

theorem Akin.flashSize (akin : Akin m n) : m.flash.size = n.flash.size :=
  congrArg (fun g => g.flash.segment.size) akin

theorem Akin.relativeTarget (akin : Akin m n) (next : Nat) (k : Int) :
    m.relativeTarget next k = n.relativeTarget next k := by
  rw [Machine.relativeTarget, Machine.relativeTarget, akin.flashSize]

theorem Akin.sleepCycles (akin : Akin m n) : m.sleepCycles = n.sleepCycles := by
  rw [Machine.sleepCycles, Machine.sleepCycles, akin.clock]

theorem Akin.unimplemented (akin : Akin m n) (i : Instr) :
    m.unimplemented i = n.unimplemented i := by
  rw [Machine.unimplemented, Machine.unimplemented, akin.pc]

end Machine

end Avr

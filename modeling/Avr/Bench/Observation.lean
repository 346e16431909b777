import Avr.Bench.World
import Avr.Machine.Run

/-!
Contract: what a bench observes of its machine after each operation.

Owns:
- the parts that are shown every time, and those that are shown only when they changed;
- what is remembered in order to tell.

Once the contents of SRAM have been left undefined, they are not observed anymore.
-/

namespace Avr.Bench

open Avr.Machine

/-- What is remembered of a machine from one observation to the next. -/
structure Glance where
  bytes : Array UInt8
  stored : Array (Option UInt8)
  posted : Interrupt.Mask
  enabled : Interrupt.Mask

/-- What a machine has, as far as observations compare it. -/
def Glance.of (m : Machine World) : Glance where
  bytes := m.data.bytes
  stored := m.io.map Io.Register.stored?
  posted := m.interrupts.table.posted
  enabled := m.interrupts.table.enabled

/-- The glance before the first observation: every byte zero, no interrupt posted or enabled. -/
def Glance.first (m : Machine World) : Glance where
  bytes := Array.replicate m.data.size 0
  stored := Array.replicate m.io.size (some 0)
  posted := 0
  enabled := 0

structure Observation where
  answer : Answer
  pc : Nat
  status : UInt8
  stack : UInt16
  cycles : Nat
  instructionsRun : Nat
  state : RunState
  /-- Whether the last execution ended at a breakpoint, at `BREAK`, by a stop or by a timeout, and
  whether the machine sleeps. -/
  marks : List Bool
  bytes : List (Nat × UInt8)
  registers : List (Nat × Option UInt8)
  /-- The posted and the enabled interrupts, if either changed. -/
  masks : Option (Interrupt.Mask × Interrupt.Mask)
  journal : List Entry

/-- The largest number of changed bytes that an observation spells out. -/
def Observation.shownBytes : Nat := 40

/-- Positions and values of the elements that differ from those before. -/
def changes {α : Type} [DecidableEq α] (before after : Array α) : List (Nat × α) :=
  after.toList.zipIdx.filterMap fun (value, index) =>
    if before[index]? = some value then none else some (index, value)

def observedBytes (m : Machine World) : Array UInt8 :=
  if m.world.undefinedFill then m.data.bytes.extract 0 m.part.sramStart else m.data.bytes

def observedMasks (before after : Glance) : Option (Interrupt.Mask × Interrupt.Mask) :=
  if before.posted = after.posted ∧ before.enabled = after.enabled then
    none
  else
    some (after.posted, after.enabled)

/-- Observe a machine after an operation with the given answer, emptying its journal. -/
def observe (answer : Answer) (before : Glance) (m : Machine World) :
    Observation × Glance × Machine World :=
  let now := Glance.of m
  let (journal, world) := m.world.takeJournal
  let observation : Observation :=
    { answer
      pc := m.pc
      status := m.status.byte
      stack := m.stackPointer
      cycles := m.cycles
      instructionsRun := m.instructionsRun
      state := m.state
      marks := [m.hitBreakpoint, m.hitBreak, m.hitStop, m.hitTimeout, m.sleeping]
      bytes := changes before.bytes (observedBytes m)
      registers := changes before.stored now.stored
      masks := observedMasks before now
      journal }
  (observation, now, { m with world })

end Avr.Bench

import Avr.Machine.Schedule

/-!
Contract: making and resetting machines.

Owns:
- the IO registers that a new machine has;
- what a reset clears and what it keeps;
- loading of programs.

A reset keeps flash, IO registers, the interrupt table, the clock and everything attached. It does
not keep the stack pointer, which is set to the end of SRAM.
-/

namespace Avr.Machine

open Avr.Memory

variable {World : Type}

/-- The data space after reset: registers and IO window cleared, SRAM filled. -/
def clearedData (part : Part) (fill : Fill) : Array UInt8 :=
  (List.replicate part.sramStart 0 ++ fill.bytes part.sramSize).toArray

def resetCore (m : Machine World) : Machine World :=
  let cleared : Machine World := { m with
    pc := 0
    status := .clear
    data := { m.data with bytes := clearedData m.part m.settings.fill }
    sleeping := false
    state := .running
    justReturned := false
    innerLoop := false
    delayCycles := 0
    instructionsRun := 0
    halt := none
    pause := .unsuccessful
    stopRequested := false
    flash := m.flash.rearm }
  cleared.setStackPointer m.part.stackTop

def reset (env : Environment World) : Action World Unit := do
  note env (.reset (← get).cycles)
  modify resetCore

/-- The IO registers of a part: plain ones, apart from those of the core. -/
def coreRegisters (part : Part) (reprogrammable : Bool) : Array Io.Register :=
  let plain : Array Io.Register := Array.replicate (min part.ioSize 256) (.bare (.plain 0))
  let core := ((plain.setIfInBounds part.statusRegister (.bare .status)).setIfInBounds
    part.stackLow (.bare (.stackLow 0))).setIfInBounds part.stackHigh (.bare (.stackHigh 0))
  if reprogrammable then
    core.setIfInBounds part.spmControl (.bare (.device .selfProgramming))
  else
    core

/-- A machine of the given part, as it is after power-on. -/
def new (part : Part) (settings : Settings) (world : World) : Machine World :=
  resetCore
    { pc := 0
      status := .clear
      data := Segment.new "data" part.dataSize 0
      sleeping := false
      state := .running
      justReturned := false
      innerLoop := false
      delayCycles := 0
      instructionsRun := 0
      halt := none
      pause := .unsuccessful
      stopRequested := false
      io := coreRegisters part settings.reprogrammable
      flash := Flash.new part.flashSize
      interrupts := Interrupt.Controller.new part.interruptCount
      clock := Time.Clock.new part.hz
      spm :=
        if settings.reprogrammable then
          some ⟨0, List.replicate part.pageSize erasedByte⟩
        else
          none
      part
      settings
      probes := []
      stateMachines := #[]
      world }

/-- Load a program at the start of flash. What is attached there stays. -/
def loadProgram (program : Program) : Attempt World Unit :=
  attempt fun m =>
    if program.size ≤ m.flash.size then
      return { m with flash := ← m.flash.load 0 program.bytes.toList }
    else
      throw (.programTooLarge program.size m.flash.size)

/-- One-line summary of a machine. -/
def describe (m : Machine World) : String :=
  Text.openRecord "Simulator"
    [("mcu", Text.quoted m.part.name),
      ("pc", Text.hexMarked 5 m.pc),
      ("sreg", m.status.describe),
      ("sp", Text.hexMarked 4 m.stackPointer.toNat),
      ("state", m.state.text),
      ("cycles", Text.decimal m.cycles),
      ("instructions_run", Text.decimal m.instructionsRun),
      ("interrupts", m.interrupts.table.describe),
      ("flags", m.settings.describe)]

end Avr.Machine

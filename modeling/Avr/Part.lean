import Avr.Text.Layout

/-!
Contract: the microcontroller part that is simulated.

Owns:
- the layout of the data space: registers, then IO registers, then SRAM;
- the interrupt vector layout;
- conversion between milliseconds and clock cycles.
-/

namespace Avr

/-- The numbers below are those that a word of 64 bits can hold. -/
def wordLimit : Nat := 0x10000000000000000

/-- The largest value of a 64-bit counter or address. -/
def counterLimit : Nat := 0xFFFFFFFFFFFFFFFF

/-- Cycles in a number of milliseconds at `hz`, truncated and kept within 64 bits. -/
def cyclesOfMillis (hz : Nat) (millis : Float) : Nat :=
  (millis * hz.toUInt64.toFloat / 1000.0).toUInt64.toNat

/-- Milliseconds that a number of cycles take at `hz`. -/
def millisOfCycles (hz cycles : Nat) : Float :=
  1000.0 * cycles.toUInt64.toFloat / hz.toUInt64.toFloat

/-- A microcontroller part.

IO registers are given by their number in the IO space. -/
structure Part where
  name : String
  hz : Nat
  /-- Number of IO registers, extended IO included. -/
  ioSize : Nat
  sramSize : Nat
  flashSize : Nat
  pageSize : Nat
  /-- Number of interrupt table slots; vectors are numbered from 1. -/
  interruptCount : Nat
  /-- Byte address of the first interrupt vector. -/
  interruptBase : Nat
  /-- Bytes between interrupt vectors. -/
  interruptStride : Nat
  statusRegister : Nat
  stackHigh : Nat
  stackLow : Nat
  /-- Register that extends `Z`. -/
  extension : Nat
  spmControl : Nat
  /-- Interrupt that reports self-programming ready. -/
  spmReady : Nat
deriving DecidableEq, Repr

namespace Part

def atmega128 : Part where
  name := "atmega128"
  hz := 16000000
  ioSize := 224
  sramSize := 4096
  flashSize := 131072
  pageSize := 256
  interruptCount := 36
  interruptBase := 0
  interruptStride := 4
  statusRegister := 0x3F
  stackHigh := 0x3E
  stackLow := 0x3D
  extension := 0x3B
  spmControl := 0x68
  spmReady := 35

/-- Data address of IO register 0. -/
def ioStart (_ : Part) : Nat := 32

def sramStart (part : Part) : Nat :=
  32 + part.ioSize

def dataSize (part : Part) : Nat :=
  part.sramStart + part.sramSize

/-- Last SRAM address, where the stack starts. -/
def stackTop (part : Part) : UInt16 :=
  UInt16.ofNat (part.dataSize - 1)

/-- Byte address of the handler of a vector. -/
def vectorAddress (part : Part) (vector : Nat) : Nat :=
  part.interruptBase + (vector - 1) * part.interruptStride

def describe (part : Part) : String :=
  Text.record "McuProps"
    [("name", Text.quoted part.name),
      ("hz", Text.decimal part.hz),
      ("ioreg_size", Text.decimal part.ioSize),
      ("sram_size", Text.decimal part.sramSize),
      ("flash_size", Text.decimal part.flashSize),
      ("page_size", Text.decimal part.pageSize),
      ("num_interrupts", Text.decimal part.interruptCount),
      ("interrupt_base", Text.decimal part.interruptBase),
      ("interrupt_stride", Text.decimal part.interruptStride),
      ("sreg", Text.decimal part.statusRegister),
      ("sph", Text.decimal part.stackHigh),
      ("spl", Text.decimal part.stackLow),
      ("rampz", Text.decimal part.extension),
      ("spmcsr", Text.decimal part.spmControl),
      ("spm_ready", Text.decimal part.spmReady)]

end Part

end Avr

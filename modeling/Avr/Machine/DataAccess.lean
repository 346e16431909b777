import Avr.Machine.IoAccess

/-!
Contract: access of a running program to the data space and the stack.

Owns:
- routing of the IO window to the IO registers;
- the order in which the watches of an address are called around an access;
- pushing and popping of bytes and return addresses.
-/

namespace Avr.Machine

variable {World : Type} (env : Environment World)

/-- The IO register that a data address stands for. -/
def ioIndex? (m : Machine World) (address : Nat) : Option Nat :=
  if m.part.ioStart ≤ address ∧ address - m.part.ioStart < m.io.size then
    some (address - m.part.ioStart)
  else
    none

def readMemory (address : Nat) : Action World UInt8 :=
  answer fun m =>
    let (value, world) := m.data.read env.toReporting address m.world
    ({ m with world }, value)

def writeMemory (address : Nat) (value : UInt8) : Action World Unit :=
  modify fun m =>
    let (data, world) := m.data.write env.toReporting address value m.world
    { m with data, world }

def readData (address : UInt16) : Action World UInt8 := do
  let watches := ((← get).data.watchesAt address.toNat).getD []
  notifyAll env watches (.beforeRead address)
  let value ←
    match (← get).ioIndex? address.toNat with
    | some register => readIo env register
    | none => readMemory env address.toNat
  notifyAll env watches (.afterRead address value)
  return value

def writeData (address : UInt16) (value : UInt8) : Attempt World Unit := do
  let watches := ((← get).data.watchesAt address.toNat).getD []
  notifyAll env watches (.beforeWrite address value)
  match (← get).ioIndex? address.toNat with
  | some register => writeIo env register value
  | none => writeMemory env address.toNat value
  notifyAll env watches (.afterWrite address value)

/-- Push a byte. The stack pointer moves only if the write succeeds. -/
def push (value : UInt8) : Attempt World Unit := do
  let sp := (← get).stackPointer
  writeData env sp value
  modify fun m => m.setStackPointer (sp - 1)

def pop : Action World UInt8 := do
  let sp := (← get).stackPointer + 1
  modify fun m => m.setStackPointer sp
  readData env sp

/-- Push a return address in words, the low byte first. -/
def pushReturn (word : Nat) : Attempt World Unit := do
  push env (UInt8.ofNat word)
  push env (UInt8.ofNat (word / 256))

/-- Pop a return address in words. -/
def popReturn : Action World Nat := do
  let high ← pop env
  let low ← pop env
  return (wordOfBytes low high).toNat

end Avr.Machine

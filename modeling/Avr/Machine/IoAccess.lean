import Avr.Machine.SelfProgramming

/-!
Contract: access of a running program to IO registers.

Owns:
- what a read or write does for each kind of register, by byte and by bit;
- the order in which the watches of a register are called around an access.

Watches are called from the list as it was when the access began.
-/

namespace Avr.Machine

open Avr.Io

variable {World : Type} (env : Environment World)

/-- The watches of a register, if it is wrapped with any. -/
def ioWatches? (m : Machine World) (register : Nat) : Option HandleList :=
  m.io[register]?.bind Register.watches?

/-! ### Devices -/

def readDevice : Device → Action World UInt8
  | .selfProgramming => return (← get).spmControl
  | .outside h => env.readDevice h

def writeDevice (value : UInt8) : Device → Attempt World Unit
  | .selfProgramming => writeSpmControl env value
  | .outside h => env.writeDevice h value

def readDeviceBit (bit : Nat) : Device → Action World Bool
  | .selfProgramming => return byteBit (← get).spmControl bit
  | .outside h => env.readDeviceBit h bit

def writeDeviceBit (bit : Nat) (value : Bool) : Device → Attempt World Unit
  | .selfProgramming => do writeSpmControl env (withBit (← get).spmControl bit value)
  | .outside h => env.writeDeviceBit h bit value

/-! ### Accesses under the watches -/

def readUnwatched (register : Nat) : Action World UInt8 := do
  let m ← get
  match m.io[register]?.map Register.kind with
  | none =>
    note env (.missingRegisterRead register)
    return 0
  | some .status => return m.status.byte
  | some (.device device) => readDevice env device
  | some kind => return kind.stored?.getD 0

def readBitUnwatched (register bit : Nat) : Action World Bool := do
  match (← get).io[register]?.map Register.kind with
  | some (.device device) => readDeviceBit env bit device
  | _ => return byteBit (← readUnwatched env register) bit

/-- Drop a write to a reserved register, or refuse it under strict IO. -/
def writeReserved (register : Nat) (value : UInt8) : Attempt World Unit := do
  if (← get).settings.strict then
    throw (.reservedWrite register value)
  else
    note env (.reservedWriteDropped register value)

def writeUnwatched (register : Nat) (value : UInt8) : Attempt World Unit := do
  match (← get).io[register]?.map Register.kind with
  | none => throw (noRegister register)
  | some (.plain _) | some (.stackLow _) | some (.stackHigh _) =>
    modify fun m => m.setIoStored register value
  | some .status => setStatus env value
  | some (.flags old pair) =>
    let new := old &&& ~~~value
    modify fun m => m.setIoStored register new
    syncPosted env pair old new
  | some (.mask old pair) =>
    modify fun m => m.setIoStored register value
    syncEnabled env pair old value
  | some .reserved => writeReserved env register value
  | some (.device device) => writeDevice env value device

/-- Write one bit. Of a flag register only the addressed flag can be cleared, by a one; other
registers are read, changed and written back. -/
def writeBitUnwatched (register bit : Nat) (value : Bool) : Attempt World Unit := do
  match (← get).io[register]?.map Register.kind with
  | none => throw (noRegister register)
  | some (.flags _ _) =>
    if value then writeUnwatched env register (withBit 0 bit true)
  | some (.device device) => writeDeviceBit env bit value device
  | some _ =>
    let old ← readUnwatched env register
    writeUnwatched env register (withBit old bit value)

/-! ### Accesses -/

def readIo (register : Nat) : Action World UInt8 := do
  match (← get).ioWatches? register with
  | none => readUnwatched env register
  | some watches =>
    notifyAll env watches (.beforeIoRead register)
    let value ← readUnwatched env register
    notifyAll env watches (.afterIoRead register value)
    return value

def writeIo (register : Nat) (value : UInt8) : Attempt World Unit := do
  match (← get).ioWatches? register with
  | none => writeUnwatched env register value
  | some watches =>
    notifyAll env watches (.beforeIoWrite register value)
    writeUnwatched env register value
    notifyAll env watches (.afterIoWrite register value)

def readIoBit (register bit : Nat) : Action World Bool := do
  match (← get).ioWatches? register with
  | none => readBitUnwatched env register bit
  | some watches =>
    notifyAll env watches (.beforeIoBitRead register bit)
    let value ← readBitUnwatched env register bit
    notifyAll env watches (.afterIoBitRead register bit value)
    return value

def writeIoBit (register bit : Nat) (value : Bool) : Attempt World Unit := do
  match (← get).ioWatches? register with
  | none => writeBitUnwatched env register bit value
  | some watches =>
    notifyAll env watches (.beforeIoBitWrite register bit value)
    writeBitUnwatched env register bit value
    notifyAll env watches (.afterIoBitWrite register bit value)

/-! ### Watches -/

/-- Add a watch behind those already on the register. -/
def insertIoWatch (register : Nat) (watch : Handle) : Attempt World Unit :=
  attempt fun m =>
    if register < m.io.size then
      .ok { m with io := m.io.modify register (Register.insertWatch · watch) }
    else
      .error (noRegister register)

/-- Remove the first entry of a watch from the register, and tell whether there was one. -/
def removeIoWatch (m : Machine World) (register : Nat) (watch : Handle) : Machine World × Bool :=
  match m.io[register]? with
  | none => (m, false)
  | some old =>
    let (new, found) := old.removeWatch watch
    ({ m with io := m.io.setIfInBounds register new }, found)

end Avr.Machine

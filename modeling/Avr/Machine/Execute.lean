import Avr.Machine.DataAccess
import Avr.Machine.DataProcessing

/-!
Contract: execution of one instruction.

Owns:
- the effect of every instruction, the next program counter and the cost in cycles;
- skips, jumps, calls and returns;
- the instructions that do not exist on the part, which fail and change nothing.

The caller advances the clock by the cost.
-/

namespace Avr.Machine

open Avr.Isa

variable {World : Type} (env : Environment World)

/-- Where execution goes on, and what the instruction cost. -/
structure Outcome where
  pc : Nat
  cycles : Nat
deriving DecidableEq, Repr

/-- The target of a jump by `k` words from the following instruction, wrapped around flash. -/
def relativeTarget (m : Machine World) (next : Nat) (k : Int) : Nat :=
  (((next : Int) + 2 * k) % (max m.flash.size 2 : Nat)).toNat

/-- Read a byte of flash as a running program does. -/
def readFlash (address : Nat) : Action World UInt8 :=
  answer fun m =>
    let (value, world) := m.flash.segment.read env.toReporting address m.world
    ({ m with world }, value)

/-- Skip the instruction at `next`, whatever its size. -/
def skip (next : Nat) : Action World Outcome := do
  let low ← readFlash env next
  let high ← readFlash env (next + 1)
  return if startsTwoWord (wordOfBytes low high) then ⟨next + 4, 3⟩ else ⟨next + 2, 2⟩

/-- Skip the instruction at `next` if the condition holds. -/
def skipIf (next : Nat) (condition : Bool) : Action World Outcome :=
  if condition then skip env next else return ⟨next, 1⟩

/-- The address that a load or store accesses, and the machine with the pointer updated. -/
def pointerAccess (m : Machine World) (p : Pointer) (mode : PointerMode) :
    Machine World × UInt16 :=
  let address := m.pointer p
  match mode with
  | .displaced offset => (m, address + offset.toUInt16)
  | .postIncrement => (m.setPointer p (address + 1), address)
  | .preDecrement => (m.setPointer p (address - 1), address - 1)

/-- Push the address of the following instruction for a later return. -/
def call (next : Nat) : Attempt World Unit :=
  pushReturn env (next / 2)

def executeUnary (op : UnaryOp) (r : Reg) (next : Nat) : Attempt World Outcome := do
  match op with
  | .push =>
    push env ((← get).reg r)
    return ⟨next, 2⟩
  | .pop =>
    let value ← pop env
    modify fun m => m.setReg r value
    return ⟨next, 2⟩
  | _ =>
    modify (unary op r)
    return ⟨next, 1⟩

def executeFlag (set : Bool) (s : UInt8) : Action World Unit :=
  if s = 7 then
    if set then enableInterrupts env else disableInterrupts env
  else
    modify fun m => { m with status := m.status.assign (1 <<< s) set }

def executeRegisterBit (op : RegisterBitOp) (r : Reg) (b : UInt8) (next : Nat) :
    Action World Outcome := do
  match op with
  | .bst =>
    modify (storeBit r b)
    return ⟨next, 1⟩
  | .bld =>
    modify (loadBit r b)
    return ⟨next, 1⟩
  | .sbrc => skipIf env next (!byteBit ((← get).reg r) b.toNat)
  | .sbrs => skipIf env next (byteBit ((← get).reg r) b.toNat)

def executeIoBit (op : IoBitOp) (a b : UInt8) (next : Nat) : Attempt World Outcome := do
  match op with
  | .cbi =>
    writeIoBit env a.toNat b.toNat false
    return ⟨next, 2⟩
  | .sbi =>
    writeIoBit env a.toNat b.toNat true
    return ⟨next, 2⟩
  | .sbic => skipIf env next (!(← readIoBit env a.toNat b.toNat))
  | .sbis => skipIf env next (← readIoBit env a.toNat b.toNat)

def executeLoadProgram (extended : Bool) (rd : Reg) (increment : Bool) : Action World Unit := do
  let m ← get
  let address := if extended then m.extendedZ else (m.pointer .z).toNat
  let value ← readFlash env address
  modify fun m => m.setReg rd value
  if increment then
    if extended then
      modify fun m => m.setExtendedZ ((address + 1) % 0x1000000)
    else
      modify fun m => m.setPointer .z (UInt16.ofNat (address + 1))

/-- The fault of an instruction that this part does not have. -/
def unimplemented (m : Machine World) (i : Instr) : Fault :=
  .unimplemented m.pc i.encode.1 i.mnemonic

def executeControl (op : ControlOp) (next : Nat) : Attempt World Outcome := do
  match op with
  | .ijmp => return ⟨((← get).pointer .z).toNat * 2, 2⟩
  | .icall =>
    call env next
    return ⟨((← get).pointer .z).toNat * 2, 3⟩
  | .eijmp | .eicall => throw ((← get).unimplemented (.control op))
  | .ret => return ⟨(← popReturn env) * 2, 4⟩
  | .reti =>
    let target ← popReturn env
    enableInterrupts env
    modify fun m => { m with justReturned := true }
    return ⟨target * 2, 4⟩
  | .spm =>
    storeProgram env
    return ⟨next, 1⟩
  | .nop | .wdr => return ⟨next, 1⟩
  | .sleep =>
    note env (.sleeping (← get).cycles)
    modify fun m => { m with sleeping := true, state := .sleeping, innerLoop := false }
    return ⟨next, 1⟩
  | .break =>
    note env (.breakExecuted (← get).pc)
    modify fun m => { m with state := .stopped, halt := some .break }
    return ⟨next, 1⟩

/-- The effect of an instruction whose successor in memory is at `next`. -/
def perform (i : Instr) (next : Nat) : Attempt World Outcome := do
  match i with
  | .binary .cpse rd rr => skipIf env next ((← get).reg rd = (← get).reg rr)
  | .binary op rd rr =>
    modify (binary op rd rr)
    return ⟨next, binaryCycles op⟩
  | .immediate op rd k =>
    modify (immediate op rd k)
    return ⟨next, immediateCycles op⟩
  | .unary op r => executeUnary env op r next
  | .flag set s =>
    executeFlag env set s
    return ⟨next, 1⟩
  | .registerBit op r b => executeRegisterBit env op r b next
  | .branch onSet s k =>
    let m ← get
    return if m.status.bit s.toNat = onSet then ⟨m.relativeTarget next k, 2⟩ else ⟨next, 1⟩
  | .relative isCall k =>
    if isCall then
      call env next
    return ⟨(← get).relativeTarget next k, if isCall then 3 else 2⟩
  | .absolute isCall k =>
    if isCall then
      call env next
    return ⟨k * 2, if isCall then 4 else 3⟩
  | .input rd a =>
    let value ← readIo env a.toNat
    modify fun m => m.setReg rd value
    return ⟨next, 1⟩
  | .output a rr =>
    writeIo env a.toNat ((← get).reg rr)
    return ⟨next, 1⟩
  | .ioBit op a b => executeIoBit env op a b next
  | .load rd p mode =>
    let address ← answer (pointerAccess · p mode)
    let value ← readData env address
    modify fun m => m.setReg rd value
    return ⟨next, 2⟩
  | .store p mode rr =>
    let value := (← get).reg rr
    let address ← answer (pointerAccess · p mode)
    writeData env address value
    return ⟨next, 2⟩
  | .loadDirect rd k =>
    let value ← readData env k
    modify fun m => m.setReg rd value
    return ⟨next, 2⟩
  | .storeDirect k rr =>
    writeData env k ((← get).reg rr)
    return ⟨next, 2⟩
  | .loadProgram extended rd increment =>
    executeLoadProgram env extended rd increment
    return ⟨next, 3⟩
  | .control op => executeControl env op next
  | .undefined _ => throw ((← get).unimplemented i)

/-- The address of the instruction that follows `i` at `pc`; addresses have 32 bits. -/
def following (pc : Nat) (i : Instr) : Nat :=
  (pc + i.size) % 0x100000000

/-- Execute an instruction at the program counter and move on; the result is its cost. -/
def execute (i : Instr) : Attempt World Nat := do
  let outcome ← perform env i (following (← get).pc i)
  modify fun m => { m with pc := outcome.pc }
  return outcome.cycles

end Avr.Machine

import Avr.Bench.Perform.Basic
import Avr.Isa.Assembly
import Avr.Machine.Execute
import Avr.Machine.Reset

/-!
Contract: operations on the core and its memories.

Owns:
- registers, the status register and the stack pointer;
- the data space and the stack;
- flash.
-/

namespace Avr.Bench

open Avr.Isa Avr.Machine

variable (env : Environment World)

/-! ### Registers -/

/-- Set registers in order, up to the first that does not exist. -/
def setRegisters : List (Nat × UInt8) → Play Answer
  | [] => return .nothing
  | (number, value) :: rest =>
    withRegister number fun r => do
      modify fun m => m.setReg r value
      setRegisters rest

def RegisterOp.perform : RegisterOp → Play Answer
  | .get number => withRegister number fun r => inspect fun m => .byte (m.reg r)
  | .set number value => withRegister number fun r => silently fun m => m.setReg r value
  | .all => inspect fun m => .text (Text.hexBytes (excerpt m.data.bytes 0 registerCount))
  | .setAll values => setRegisters values
  | .pair number => withRegister number fun r => inspect fun m => .word (m.pair r)
  | .setPair number value => withRegister number fun r => silently fun m => m.setPair r value
  | .pointer p => inspect fun m => .word (m.pointer p)
  | .setPointer p value => silently fun m => m.setPointer p value
  | .setPc pc => silently fun m => { m with pc }
  | .status => inspect fun m => .text m.status.describe
  | .setStatus value => do
    Machine.setStatus env value
    return .nothing
  | .stack => inspect fun m => .word m.stackPointer
  | .setStack value => silently fun m => m.setStackPointer value
  | .setCount count => silently fun m => { m with instructionsRun := count }

/-! ### Data space -/

def DataOp.perform : DataOp → Play Answer
  | .read address => return .byte (← readData env address)
  | .write address value => outcome (writeData env address value)
  | .get address => inspect fun m => .ofByte (m.data.get address)
  | .set address value =>
    outcome (attempt fun m => return { m with data := ← m.data.set address value })
  | .load address values =>
    outcome (attempt fun m => return { m with data := ← m.data.load address values })
  | .dump address count =>
    inspect fun m => .text (Text.hexBytes (excerpt m.data.bytes address count))
  | .describe => inspect fun m => .text m.data.describe
  | .push value => outcome (Machine.push env value)
  | .pop => return .byte (← Machine.pop env)
  | .reporter who value => do
    let h ← withWorld (World.addObject (.reporter who value))
    silently fun m => { m with data := { m.data with reporter := some h } }

/-! ### Flash -/

def instrAnswer : Except Fault Instr → Answer
  | .ok i => .list [.instr i, .text i.text]
  | .error fault => .fault fault

def FlashOp.perform : FlashOp → Play Answer
  | .program none => return .badRegister
  | .program (some image) => outcome (loadProgram image)
  | .load address values =>
    outcome (attempt fun m => return { m with flash := ← m.flash.load address values })
  | .set address value =>
    outcome (attempt fun m => return { m with flash := ← m.flash.set address value })
  | .get address => inspect fun m => .ofByte (m.flash.get address)
  | .read address => return .byte (← readFlash env address)
  | .dump address count =>
    inspect fun m => .text (Text.hexBytes (excerpt m.flash.segment.bytes address count))
  | .info => inspect fun m =>
    .list [.number m.flash.size, .truth (m.flash.size = 0), .text m.flash.describe]
  | .instr address => inspect fun m => instrAnswer (m.flash.instr address)

end Avr.Bench

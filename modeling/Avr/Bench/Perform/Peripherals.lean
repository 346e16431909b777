import Avr.Bench.Perform.Basic
import Avr.Machine.IoAccess

/-!
Contract: operations on IO registers and interrupts.

Owns:
- accesses to IO registers and their installation;
- flag pairs by name;
- posting, enabling, forcing and following of interrupts.
-/

namespace Avr.Bench

open Avr.Io Avr.Interrupt Avr.Machine

variable (env : Environment World)

/-! ### IO registers -/

/-- The register of a specification; a device is made for it. -/
def RegisterSpec.make : RegisterSpec → Play Kind
  | .plain value => return .plain value
  | .status => return .status
  | .stackLow value => return .stackLow value
  | .stackHigh value => return .stackHigh value
  | .reserved => return .reserved
  | .device spec => do
    let h ← withWorld (World.addObject (.device ⟨spec, spec.start, false⟩))
    return .device (.outside h)

/-- The pair with the given vectors, assigned in order. -/
def pairOf (flagRegister maskRegister : Nat) (bits : List (Nat × Nat × Bool)) : FlagPair :=
  bits.foldl (fun pair (bit, vector, sticky) => pair.assign bit vector sticky)
    (FlagPair.new flagRegister maskRegister)

/-- Install a pair, which gets its name only if that succeeds. -/
def installNamed (who : String) (pair : FlagPair) : Attempt World Unit := do
  installPair pair
  modify fun m => { m with world := { m.world with pairs := m.world.pairs.put who pair } }

/-- Use the pair of a name. -/
def withPair (who : String) (use : FlagPair → Play Answer) : Play Answer := do
  match (← get).world.pairs.get? who with
  | none => return .unknownName
  | some pair => use pair

def pairAnswer (pair : FlagPair) (m : Machine World) : Answer :=
  .list [.byte (m.ioStored pair.flagRegister), .byte (m.ioStored pair.maskRegister),
    .number pair.flagRegister, .number pair.maskRegister, .text pair.describe]

def registerAnswer (register : Register) : Answer :=
  .list [.text register.describe, .truth register.watches?.isSome,
    .optional (register.stored?.map .byte), .text register.kind.describe]

def IoOp.perform : IoOp → Play Answer
  | .read register => return .byte (← readIo env register)
  | .write register value => outcome (writeIo env register value)
  | .readBit register bit => return .truth (← readIoBit env register bit)
  | .writeBit register bit value => outcome (writeIoBit env register bit value)
  | .describe register => inspect fun m => .optional (m.io[register]?.map registerAnswer)
  | .install register spec => do
    let kind ← spec.make
    outcome (installRegister register kind)
  | .newPair who flagRegister maskRegister bits =>
    outcome (installNamed who (pairOf flagRegister maskRegister bits))
  | .setFlag who bit => withPair who fun pair => outcome (setFlagBit env pair bit true)
  | .clearFlag who bit => withPair who fun pair => outcome (setFlagBit env pair bit false)
  | .pair who => withPair who fun pair => inspect (pairAnswer pair)

/-! ### Interrupts -/

/-- The answer about one vector. -/
def vectorAnswer (vector : Nat) (m : Machine World) : Answer :=
  let table := m.interrupts.table
  .list [.truth (table.isPosted vector), .truth (table.isEnabled vector),
    .truth (table.isPending vector), .truth (m.interrupts.notification? vector).isSome]

def tableAnswer (table : Table) : Answer :=
  .list [.number table.size, .text (Text.hex 1 table.pending.toNat),
    .optional (table.first?.map .number), .text table.describe]

/-- Change the interrupt table without calling anyone. -/
def quietly (change : Table → Except Fault Table) : Play Answer :=
  outcome (attempt fun m => return m.setTable (← change m.interrupts.table))

/-- Change the followers of interrupts. -/
def changeController (change : Controller → Except Fault Controller) : Play Answer :=
  outcome (attempt fun m => return { m with interrupts := ← change m.interrupts })

/-- Change the followers of interrupts and answer whether something was found. -/
def foundInController (change : Controller → Controller × Bool) : Play Answer :=
  found fun m =>
    let (interrupts, found) := change m.interrupts
    ({ m with interrupts }, found)

def InterruptOp.perform : InterruptOp → Play Answer
  | .post vector => outcome (postInterrupt env vector)
  | .unpost vector => outcome (unpostInterrupt env vector)
  | .enable vector => outcome (enableInterrupt env vector)
  | .disable vector => outcome (disableInterrupt env vector)
  | .force vector => outcome (forceInterrupt env vector)
  | .setPosted vector posted => outcome (Machine.setPosted env vector posted)
  | .setEnabled vector enabled => outcome (Machine.setEnabled env vector enabled)
  | .allow => do
    enableInterrupts env
    return .nothing
  | .forbid => do
    disableInterrupts env
    return .nothing
  | .postQuietly vector => quietly fun table => table.post vector
  | .enableQuietly vector => quietly fun table => table.enable vector
  | .info => inspect fun m => tableAnswer m.interrupts.table
  | .query vector => inspect (vectorAnswer vector)
  | .notify vector who => do
    let h ← withWorld (World.recorder who)
    outcome (registerNotification vector (.outside h))
  | .probe vector who => do
    let h ← withWorld (World.recorder who)
    changeController fun c => c.insertProbe vector h
  | .removeProbe vector who => do
    let h ← withWorld (World.recorder who)
    foundInController fun c => c.removeProbe vector h
  | .probeAll who => do
    let h ← withWorld (World.recorder who)
    silently fun m => { m with interrupts := m.interrupts.insertGlobalProbe h }
  | .removeProbeAll who => do
    let h ← withWorld (World.recorder who)
    foundInController fun c => c.removeGlobalProbe h

end Avr.Bench

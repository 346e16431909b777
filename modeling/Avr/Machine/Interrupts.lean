import Avr.Machine.Schedule

/-!
Contract: interrupts of a machine, with everyone who follows them.

Owns:
- posting, enabling and forcing of vectors, which calls their probes afterwards;
- the global interrupt flag;
- flag pairs: keeping the interrupt table in step with their registers.
-/

namespace Avr.Machine

open Avr.Interrupt Avr.Io

variable {World : Type} (env : Environment World)

def setTable (m : Machine World) (table : Table) : Machine World :=
  { m with interrupts := { m.interrupts with table } }

/-- Call the probes of a vector. -/
def notifyVector (vector : Nat) (hook : Nat → Hook) : Action World Unit := do
  notifyAll env ((← get).interrupts.probesFor vector) (hook vector)

/-- Call the probes of all vectors about the global flag, which counts as vector zero. -/
def notifyGlobal (hook : Nat → Hook) : Action World Unit := do
  notifyAll env (← get).interrupts.globalProbes (hook 0)

/-- Change the table, then call the probes of the vector. -/
def changeVector (change : Table → Nat → Except Fault Table) (hook : Nat → Hook) (vector : Nat) :
    Attempt World Unit := do
  attempt fun m => return m.setTable (← change m.interrupts.table vector)
  notifyVector env vector hook

def postInterrupt : Nat → Attempt World Unit :=
  changeVector env Table.post .posted

def unpostInterrupt : Nat → Attempt World Unit :=
  changeVector env Table.unpost .unposted

def enableInterrupt : Nat → Attempt World Unit :=
  changeVector env Table.enable .enabled

def disableInterrupt : Nat → Attempt World Unit :=
  changeVector env Table.disable .disabled

def setPosted (vector : Nat) (posted : Bool) : Attempt World Unit :=
  if posted then postInterrupt env vector else unpostInterrupt env vector

def setEnabled (vector : Nat) (enabled : Bool) : Attempt World Unit :=
  if enabled then enableInterrupt env vector else disableInterrupt env vector

def enableInterrupts : Action World Unit := do
  modify fun m => { m with
    status := { m.status with i := true }
    interrupts := { m.interrupts with table := m.interrupts.table.markStale }
    innerLoop := false }
  notifyGlobal env .enabled

def disableInterrupts : Action World Unit := do
  modify fun m => { m with status := { m.status with i := false } }
  notifyGlobal env .disabled

/-- Write the status register. A change of `I` goes through `enableInterrupts` or
`disableInterrupts`, after the other flags have their new values. -/
def setStatus (value : UInt8) : Action World Unit := do
  let new := Status.ofByte value
  let old := (← get).status.i
  modify fun m => { m with status := { new with i := old } }
  if !old && new.i then
    enableInterrupts env
  else if old && !new.i then
    disableInterrupts env

/-! ### Flag pairs -/

/-- Post or unpost each vector whose flag bit changed. -/
def syncPosted (pair : FlagPair) (old new : UInt8) : Attempt World Unit :=
  (pair.changed old new).forM fun (bit, vector) => setPosted env vector (byteBit new bit)

/-- Enable or disable each vector whose mask bit changed. -/
def syncEnabled (pair : FlagPair) (old new : UInt8) : Attempt World Unit :=
  (pair.changed old new).forM fun (bit, vector) => setEnabled env vector (byteBit new bit)

/-- Set or clear one flag of a pair and its vector with it.

Nothing happens while the flag register is one that stores nothing. -/
def setFlagBit (pair : FlagPair) (bit : Nat) (set : Bool) : Attempt World Unit := do
  match (← get).io[pair.flagRegister]?.bind Register.stored? with
  | none => return
  | some old =>
    let new := withBit old bit set
    modify fun m => m.setIoStored pair.flagRegister new
    syncPosted env pair old new

/-- Tell the device of a vector that its interrupt is forced. -/
def notifyForced (vector : Nat) : Action World Unit := do
  match (← get).interrupts.notification? vector with
  | none => return
  | some (.outside h) => env.notify h (.forced vector)
  | some (.flag pair bit _) =>
    match ← (setFlagBit env pair bit true).run with
    | .ok () => return
    | .error fault => note env (.forceFailed vector fault)

/-- Tell the device of a vector that its handler is dispatched. -/
def notifyInvoked (vector : Nat) : Action World Unit := do
  match (← get).interrupts.notification? vector with
  | none => return
  | some (.outside h) => env.notify h (.invoked vector)
  | some (.flag pair bit sticky) =>
    if sticky then
      return
    match ← (setFlagBit env pair bit false).run with
    | .ok () => return
    | .error fault => note env (.clearFailed vector fault)

/-- Post an interrupt and put its device into the state it would have raised it from. -/
def forceInterrupt (vector : Nat) : Attempt World Unit := do
  postInterrupt env vector
  notifyForced env vector

/-! ### Installation -/

/-- The fault of an IO register that does not exist. -/
def noRegister (register : Nat) : Fault :=
  .outOfBounds "io" register

/-- Replace an IO register; its watches stay. -/
def installRegister (register : Nat) (kind : Kind) : Attempt World Unit :=
  attempt fun m =>
    if register < m.io.size then
      .ok { m with io := m.io.modify register (Register.withKind · kind) }
    else
      .error (noRegister register)

/-- Replace who is told about an interrupt. -/
def registerNotification (vector : Nat) (notification : Notification) : Attempt World Unit :=
  attempt fun m => return { m with interrupts := ← m.interrupts.register vector notification }

/-- Install both registers of a pair and let it follow its vectors. -/
def installPair (pair : FlagPair) : Attempt World Unit := do
  pair.mapped.forM fun (bit, vector) =>
    registerNotification vector (.flag pair bit (pair.isSticky bit))
  installRegister pair.flagRegister (.flags 0 pair)
  installRegister pair.maskRegister (.mask 0 pair)

end Avr.Machine

import Avr.Bench.Perform

/-!
Contract: how the objects of a bench answer their calls.

Owns:
- recorders, which enter their calls and perform their scripts;
- monitors and devices;
- the environment made of all of them.

Why there is a depth: a script may cause calls whose scripts cause calls again. The environment of
one depth performs scripts in the environment below, so every environment is a value; at depth zero
nobody answers. The environment below is made when a call needs it, so a depth that no bench reaches
costs nothing.
-/

namespace Avr.Bench

open Avr.Machine

variable (env : Environment World)

/-! ### Recorders -/

/-- Perform the operations of a script, entering the answer of each. -/
def performScript (who : String) (script : Script Operation) : Play Unit :=
  script.lines.forM fun (label, op) => do
    let result ← op.perform env
    modifyWorld fun world => world.enter (.performed who label result)

def callNamed (who hook : String) (arguments : List Answer) : Play Unit := do
  let script ← withWorld (World.takeScript who hook)
  if !script.quiet then
    modify fun m =>
      { m with world := m.world.enter (.called who hook arguments m.cycles) }
  performScript env who script

/-! ### Monitors -/

def World.monitor? (world : World) (h : Handle) : Option Monitor :=
  match world.object? h with
  | some (.monitor monitor) => some monitor
  | _ => none

def World.modifyMonitor (h : Handle) (change : Monitor → Monitor) (world : World) : World :=
  match world.monitor? h with
  | some monitor => world.setObject h (.monitor (change monitor))
  | none => world

/-- Call the probe that a monitor passes calls on to at the moment. -/
def passOn (h : Handle) (hook : Hook) : Play Unit := do
  match ((← get).world.monitor? h).bind Monitor.inner? with
  | some inner => env.notify inner hook
  | none => return

/-- Pause the machine if a monitor has just reached its limit. -/
def expire (h : Handle) : Play Unit := do
  match ((← get).world.monitor? h).bind Monitor.expired? with
  | some seen =>
    note env (.instructionLimit seen)
    timeout env
  | none => return

/-- Whether execution went on at the instruction that follows an address. -/
def fellThrough (m : Machine World) (address : Nat) : Bool :=
  match m.flash.instr address with
  | .ok i => m.pc = address + i.size
  | .error _ => m.pc = address + 2

/-- Call a monitor. A sequence is entered before its first call is passed on, and left after its
last one. -/
def callMonitor (h : Handle) : Hook → Play Unit
  | .beforeInstruction address => do
    modifyWorld (World.modifyMonitor h fun monitor => monitor.before address)
    passOn env h (.beforeInstruction address)
  | .afterInstruction address => do
    passOn env h (.afterInstruction address)
    let through := fellThrough (← get) address
    modifyWorld (World.modifyMonitor h fun monitor => monitor.after address through)
    expire env h
  | _ => return

/-! ### Devices -/

def World.device? (world : World) (h : Handle) : Option DeviceState :=
  match world.object? h with
  | some (.device state) => some state
  | _ => none

def World.modifyDevice (h : Handle) (change : DeviceState → DeviceState) (world : World) : World :=
  match world.device? h with
  | some state => world.setObject h (.device (change state))
  | none => world

def setDeviceValue (h : Handle) (value : UInt8) : Play Unit :=
  modifyWorld (World.modifyDevice h fun state => { state with value })

def setBusy (h : Handle) (busy : Bool) : Play Unit :=
  modifyWorld (World.modifyDevice h fun state => { state with busy })

def deviceValue (h : Handle) : Play UInt8 := do
  return (((← get).world.device? h).map DeviceState.value).getD 0

/-- Access a device. A locked device is busy meanwhile, and an access to a busy one is dropped. -/
def accessDevice {α : Type} (h : Handle) (dropped : α) (access : DeviceSpec → Play α) :
    Play α := do
  match (← get).world.device? h with
  | none => return dropped
  | some state =>
    if !state.spec.locked then
      access state.spec
    else if state.busy then
      note env .registerBusy
      return dropped
    else
      setBusy h true
      let result ← access state.spec
      setBusy h false
      return result

def readByte (h : Handle) (spec : DeviceSpec) : Play UInt8 := do
  let value := (← deviceValue h) ^^^ spec.flip
  callNamed env spec.name "dev_read" [.byte value]
  return value

/-- The register number in the fault of a device that refuses a value. -/
def refusalRegister : Nat := 0xEE

def writeByte (h : Handle) (spec : DeviceSpec) (value : UInt8) : Play (Except Fault Unit) := do
  callNamed env spec.name "dev_write" [.byte value]
  if spec.refused = some value then
    return .error (.reservedWrite refusalRegister value)
  else
    setDeviceValue h value
    return .ok ()

/-- Read a bit: of the byte that is read, or by itself and inverted. -/
def readBit (h : Handle) (bit : Nat) (spec : DeviceSpec) : Play Bool := do
  if spec.bitwise then
    callNamed env spec.name "dev_read_bit" [.number bit]
    return !byteBit (← deviceValue h) bit
  else
    return byteBit (← readByte env h spec) bit

/-- Write a bit: by writing back the byte that is read, or by itself, where a one inverts it. -/
def writeBit (h : Handle) (bit : Nat) (value : Bool) (spec : DeviceSpec) :
    Play (Except Fault Unit) := do
  if spec.bitwise then
    callNamed env spec.name "dev_write_bit" [.number bit, .truth value]
    if value then
      let old ← deviceValue h
      setDeviceValue h (withBit old bit (!byteBit old bit))
    return .ok ()
  else
    let old ← readByte env h spec
    writeByte env h spec (withBit old bit value)

/-! ### Environments -/

def callObject (h : Handle) (hook : Hook) : Play Unit := do
  match (← get).world.object? h with
  | some (.recorder who) =>
    let (name, arguments) := hookCall hook
    callNamed env who name arguments
  | some (.monitor _) => callMonitor env h hook
  | some .timer =>
    modifyWorld fun world => { world with timerFirings := world.timerFirings + 1 }
  | _ => return

/-- The environment in which nobody answers calls. -/
def alone : Environment World :=
  { World.reporting with
    notify := fun _ _ => return
    readDevice := fun _ => return 0
    writeDevice := fun _ _ => return
    readDeviceBit := fun _ _ => return false
    writeDeviceBit := fun _ _ _ => return
    patience := endless }

/-- The environment in which the objects of a bench answer, performing their scripts in the
environment `below`, which each call makes for itself. -/
def among (below : Unit → Environment World) : Environment World :=
  { World.reporting with
    notify := fun h hook => callObject (below ()) h hook
    readDevice := fun h => accessDevice (below ()) h 0 (readByte (below ()) h)
    writeDevice := fun h value =>
      ExceptT.mk (accessDevice (below ()) h (.ok ()) fun spec => writeByte (below ()) h spec value)
    readDeviceBit := fun h bit => accessDevice (below ()) h false (readBit (below ()) h bit)
    writeDeviceBit := fun h bit value =>
      ExceptT.mk (accessDevice (below ()) h (.ok ()) (writeBit (below ()) h bit value))
    patience := endless }

/-- The environment whose scripts may cause calls inside calls, `depth` deep. -/
def environment : (depth : Nat) → Environment World
  | 0 => alone
  | depth + 1 => among fun () => environment depth

/-- A depth of calls inside calls that no bench reaches. -/
def callDepth : Nat := endless

end Avr.Bench

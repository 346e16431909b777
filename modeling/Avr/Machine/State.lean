import Avr.Automaton.Basic
import Avr.Flash
import Avr.Interrupt.Controller
import Avr.Io.Register
import Avr.Memory.Fill
import Avr.Time.Clock

/-!
Contract: the state of a machine, and the outside world that its callbacks live in.

Owns:
- every field of the machine, with those of the core apart from those that a reset keeps;
- the hooks at which outside objects are called, and the environment that answers the calls;
- registers, pointers and the stack pointer.

A machine carries its `World`: whatever outside objects remember. All machine operations take the
environment as a parameter, so they are defined for every behaviour of outside objects.
-/

namespace Avr

open Avr.Isa Avr.Memory

inductive RunState where
  | running
  /-- Asleep until an interrupt is dispatched. -/
  | sleeping
  /-- Stopped until reset. -/
  | stopped
deriving DecidableEq, Repr

def RunState.text : RunState → String
  | .running => "Running"
  | .sleeping => "Sleeping"
  | .stopped => "Stopped"

/-- A pause that was asked for during a step. -/
inductive Halt where
  | break
  | stop
  | timeout
deriving DecidableEq, Repr

/-- Why the last execution ended. -/
inductive Pause where
  | break
  | stop
  | breakpoint
  | timeout
  /-- The condition of the run no longer held. -/
  | tripwire
  /-- The execution is under way, or ended in a fault. -/
  | unsuccessful
deriving DecidableEq, Repr

/-- What can be chosen about a machine besides its part. -/
structure Settings where
  fill : Fill
  /-- Whether a program can rewrite flash; takes effect when a machine is made. -/
  reprogrammable : Bool
  /-- Whether writing a reserved IO register is a fault. -/
  strict : Bool
deriving DecidableEq, Repr

def Settings.describe (settings : Settings) : String :=
  Text.record "SimFlags"
    [("mem_init", settings.fill.describe),
      ("reprogrammable_flash", Text.truth settings.reprogrammable),
      ("strict_io", Text.truth settings.strict)]

/-- The self-programming unit: its control register and page buffer. -/
structure SelfProgramming where
  control : UInt8
  buffer : List UInt8
deriving DecidableEq, Repr

/-- A machine in a world of outside objects. -/
structure Machine (World : Type) where
  /-- Program counter, a byte address. -/
  pc : Nat
  status : Status
  /-- The data space: registers, the IO window and SRAM. -/
  data : Segment
  sleeping : Bool
  state : RunState
  /-- Set by `RETI`, so that one instruction runs before the next dispatch. -/
  justReturned : Bool
  /-- Whether the interrupt check can be skipped on the next step. -/
  innerLoop : Bool
  /-- Cycles to spend before the next instruction. -/
  delayCycles : Nat
  instructionsRun : Nat
  halt : Option Halt
  pause : Pause
  /-- A stop asked for from outside of the run. -/
  stopRequested : Bool
  io : Array Io.Register
  flash : Flash
  interrupts : Interrupt.Controller
  clock : Time.Clock
  spm : Option SelfProgramming
  part : Part
  settings : Settings
  /-- Probes of every instruction. -/
  probes : HandleList
  stateMachines : Array Automaton.StateMachine
  world : World

/-- A point at which an outside object is called, with what it is told. -/
inductive Hook where
  | beforeInstruction (address : Nat)
  | afterInstruction (address : Nat)
  | beforeRead (address : UInt16)
  | afterRead (address : UInt16) (value : UInt8)
  | beforeWrite (address : UInt16) (value : UInt8)
  | afterWrite (address : UInt16) (value : UInt8)
  | beforeIoRead (register : Nat)
  | afterIoRead (register : Nat) (value : UInt8)
  | beforeIoWrite (register : Nat) (value : UInt8)
  | afterIoWrite (register : Nat) (value : UInt8)
  | beforeIoBitRead (register bit : Nat)
  | afterIoBitRead (register bit : Nat) (value : Bool)
  | beforeIoBitWrite (register bit : Nat) (value : Bool)
  | afterIoBitWrite (register bit : Nat) (value : Bool)
  | posted (vector : Nat)
  | unposted (vector : Nat)
  | enabled (vector : Nat)
  | disabled (vector : Nat)
  | beforeInvoke (vector : Nat)
  | afterInvoke (vector : Nat)
  | forced (vector : Nat)
  | invoked (vector : Nat)
  | beforeTransition (source target : Int)
  | afterTransition (source target : Int)
  | event
deriving DecidableEq, Repr

/-- A computation on a machine that cannot fail. -/
abbrev Action (World : Type) := StateM (Machine World)

/-- A computation on a machine that may end in a fault; the machine keeps what was done until
then. -/
abbrev Attempt (World : Type) := ExceptT Fault (Action World)

/-- How outside objects answer their calls. -/
structure Environment (World : Type) extends Reporting World where
  notify : Handle → Hook → Action World Unit
  readDevice : Handle → Action World UInt8
  writeDevice : Handle → UInt8 → Attempt World Unit
  readDeviceBit : Handle → Nat → Action World Bool
  writeDeviceBit : Handle → Nat → Bool → Attempt World Unit
  /-- Batches of events that one delivery hands out before it gives up on ever ending. -/
  patience : Nat

namespace Machine

variable {World : Type}

/-! ### Registers -/

def cycles (m : Machine World) : Nat :=
  m.clock.count

def byteAt (m : Machine World) (address : Nat) : UInt8 :=
  m.data.bytes.getD address 0

def setByteAt (m : Machine World) (address : Nat) (value : UInt8) : Machine World :=
  { m with data := { m.data with bytes := m.data.bytes.setIfInBounds address value } }

def reg (m : Machine World) (r : Reg) : UInt8 :=
  m.byteAt r.val

def setReg (m : Machine World) (r : Reg) (value : UInt8) : Machine World :=
  m.setByteAt r.val value

/-- The register that holds the high byte of the pair starting at `low`. -/
def pairHigh (low : Reg) : Reg := low + 1

def pair (m : Machine World) (low : Reg) : UInt16 :=
  wordOfBytes (m.reg low) (m.reg (pairHigh low))

def setPair (m : Machine World) (low : Reg) (value : UInt16) : Machine World :=
  (m.setReg low (UInt8.ofNat value.toNat)).setReg (pairHigh low) (UInt8.ofNat (value.toNat / 256))

def pointer (m : Machine World) (p : Pointer) : UInt16 :=
  m.pair p.low

def setPointer (m : Machine World) (p : Pointer) (value : UInt16) : Machine World :=
  m.setPair p.low value

/-! ### Storage of IO registers, without side effects -/

/-- The stored value of an IO register, or zero if it stores none. -/
def ioStored (m : Machine World) (register : Nat) : UInt8 :=
  (m.io[register]?.bind Io.Register.stored?).getD 0

/-- Store into an IO register; registers that store nothing stay as they are. -/
def setIoStored (m : Machine World) (register : Nat) (value : UInt8) : Machine World :=
  { m with io := m.io.modify register (Io.Register.store · value) }

def stackPointer (m : Machine World) : UInt16 :=
  wordOfBytes (m.ioStored m.part.stackLow) (m.ioStored m.part.stackHigh)

def setStackPointer (m : Machine World) (value : UInt16) : Machine World :=
  (m.setIoStored m.part.stackLow (UInt8.ofNat value.toNat)).setIoStored m.part.stackHigh
    (UInt8.ofNat (value.toNat / 256))

/-- `Z` with its extension byte above. -/
def extendedZ (m : Machine World) : Nat :=
  (m.ioStored m.part.extension).toNat * 65536 + (m.pointer .z).toNat

def setExtendedZ (m : Machine World) (value : Nat) : Machine World :=
  (m.setPointer .z (UInt16.ofNat value)).setIoStored m.part.extension
    (UInt8.ofNat (value / 65536))

/-! ### Shared steps of the operations -/

def note (env : Environment World) (notice : Notice) : Action World Unit :=
  modify fun m => { m with world := env.note notice m.world }

def notifyAll (env : Environment World) (handles : HandleList) (hook : Hook) :
    Action World Unit :=
  handles.forM fun h => env.notify h hook

/-- Replace a part of the machine by a computation that may fail. -/
def attempt (change : Machine World → Except Fault (Machine World)) : Attempt World Unit := do
  match change (← get) with
  | .ok m => set m
  | .error fault => throw fault

/-- Replace the machine, keeping a result. -/
def answer {Effect : Type → Type} [MonadState (Machine World) Effect] {α : Type}
    (change : Machine World → Machine World × α) : Effect α :=
  modifyGet fun m => (change m).swap

end Machine

end Avr

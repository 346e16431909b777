import Avr.Automaton.Times
import Avr.Machine.State

/-!
Contract: the operations of a bench.

Owns:
- one type of operations for each part of a machine;
- scripts: what a named object does when it is called.

Objects are given by name. Register numbers are taken as they come and checked when they are used.
-/

namespace Avr.Bench

open Avr.Isa

inductive RegisterOp where
  | get (number : Nat)
  | set (number : Nat) (value : UInt8)
  | all
  | setAll (values : List (Nat × UInt8))
  | pair (number : Nat)
  | setPair (number : Nat) (value : UInt16)
  | pointer (p : Pointer)
  | setPointer (p : Pointer) (value : UInt16)
  | setPc (pc : Nat)
  | status
  | setStatus (value : UInt8)
  | stack
  | setStack (value : UInt16)
  | setCount (count : Nat)
deriving Repr

inductive DataOp where
  | read (address : UInt16)
  | write (address : UInt16) (value : UInt8)
  | get (address : Nat)
  | set (address : Nat) (value : UInt8)
  | load (address : Nat) (values : List UInt8)
  | dump (address count : Nat)
  | describe
  | push (value : UInt8)
  | pop
  | reporter (who : String) (value : Option UInt8)
deriving Repr

inductive FlashOp where
  /-- Load a program; it is absent if one of its registers does not exist. -/
  | program (program : Option Program)
  | load (address : Nat) (values : List UInt8)
  | set (address : Nat) (value : UInt8)
  | get (address : Nat)
  | read (address : Nat)
  | dump (address count : Nat)
  | info
  | instr (address : Nat)
deriving Repr

/-- A device of the bench: a byte with options. -/
structure DeviceSpec where
  name : String
  start : UInt8
  /-- Exclusive-ored into every byte that is read. -/
  flip : UInt8
  /-- A value whose write is refused. -/
  refused : Option UInt8
  /-- Whether single bits have a behaviour of their own. -/
  bitwise : Bool
  /-- Whether accesses from its own callbacks are dropped. -/
  locked : Bool
deriving Repr

inductive RegisterSpec where
  | plain (value : UInt8)
  | status
  | stackLow (value : UInt8)
  | stackHigh (value : UInt8)
  | reserved
  | device (spec : DeviceSpec)
deriving Repr

inductive IoOp where
  | read (register : Nat)
  | write (register : Nat) (value : UInt8)
  | readBit (register bit : Nat)
  | writeBit (register bit : Nat) (value : Bool)
  | describe (register : Nat)
  | install (register : Nat) (spec : RegisterSpec)
  | newPair (who : String) (flagRegister maskRegister : Nat) (bits : List (Nat × Nat × Bool))
  | setFlag (who : String) (bit : Nat)
  | clearFlag (who : String) (bit : Nat)
  | pair (who : String)
deriving Repr

inductive InterruptOp where
  | post (vector : Nat)
  | unpost (vector : Nat)
  | enable (vector : Nat)
  | disable (vector : Nat)
  | force (vector : Nat)
  | setPosted (vector : Nat) (posted : Bool)
  | setEnabled (vector : Nat) (enabled : Bool)
  | allow
  | forbid
  | postQuietly (vector : Nat)
  | enableQuietly (vector : Nat)
  | info
  | query (vector : Nat)
  | notify (vector : Nat) (who : String)
  | probe (vector : Nat) (who : String)
  | removeProbe (vector : Nat) (who : String)
  | probeAll (who : String)
  | removeProbeAll (who : String)
deriving Repr

inductive ClockOp where
  | advance (cycles : Nat)
  | delay (cycles : Nat)
  | event (who : String) (cycles : Nat)
  | removeEvent (who : String)
  | periodic (handle who : String) (period : Nat)
  | timeout (handle : String) (cycles : Nat)
  | timeoutNow
  | info
  | toCycles (millis : Float)
  | toMillis (cycles : Nat)
  | newPrescaler (who : String) (divider : Nat)
  | prescaler (who : String)
  | prescaledEvent (who event : String) (ticks : Nat)
  | removePrescaled (who event : String)
  | resetPrescaler (who : String)
deriving Repr

/-- The condition of a run: it holds for `calls` calls, and while the program counter and a register
do not have the given values. -/
structure RunCondition where
  calls : Nat
  pc : Option Nat
  register : Option (Nat × UInt8)
  /-- The call at which a stop is requested. -/
  stopAt : Option Nat
deriving Repr

inductive RunOp where
  | step
  | trace (count : Nat)
  | run
  | steps (limit : Nat)
  | cycles (count : Nat)
  | while (condition : RunCondition)
  | stop
  | requestStop
  | reset
  | settings (settings : Settings)
  | describe
deriving Repr

inductive MonitorSpec where
  | counter
  | branch
  | sequence (probe : String) (entry exit : Nat)
  | instructionLimit (limit : Nat)
deriving Repr

inductive ProbeOp where
  | probe (who : String)
  | removeProbe (who : String)
  | probeAt (address : Nat) (who : String)
  | removeProbeAt (address : Nat) (who : String)
  | probeCount (address : Nat)
  | watch (address : UInt16) (who : String)
  | removeWatch (address : UInt16) (who : String)
  | watchIo (register : Nat) (who : String)
  | removeWatchIo (register : Nat) (who : String)
  | breakpoint (address : Nat)
  | removeBreakpoint (address : Nat)
  | hasBreakpoint (address : Nat)
  | newMonitor (who : String) (spec : MonitorSpec)
  | monitor (who : String)
  | resetMonitor (who : String)
deriving Repr

/-- A table of transition times by its shape. -/
inductive TimesSpec where
  | rows (rows : List (List Int))
  | uniform (size time : Nat)
  | bimodal (size hub inward outward : Nat)
  | ring (size time : Nat) (wrap : Bool)
deriving Repr

def TimesSpec.build? : TimesSpec → Option Automaton.Times
  | .rows written => Automaton.Times.ofRows? written
  | .uniform size cycles => some (Automaton.Times.uniform size cycles)
  | .bimodal size centre toCentre fromCentre =>
      some (Automaton.Times.bimodal size centre toCentre fromCentre)
  | .ring size cycles wrap => some (Automaton.Times.ring size cycles wrap)

inductive StateMachineOp where
  | new (who name : String) (states : List String) (start : Int) (times : TimesSpec)
  | share (who other : String)
  | drop (who : String)
  | same (who other : String)
  | go (who : String) (state : Int)
  | info (who : String)
  | stateName (who : String) (state : Int)
  | time (who : String) (source target : Int)
  | probe (who probe : String)
  | removeProbe (who probe : String)
  | stateProbe (who : String) (state : Int) (probe : String)
  | removeStateProbe (who : String) (state : Int) (probe : String)
deriving Repr

/-- What an object does at one hook. -/
structure Script (α : Type) where
  /-- Operations, each with the name under which it is entered into the journal. -/
  lines : List (String × α)
  /-- How many more calls perform the operations; without it, all do. -/
  times : Option Nat
  /-- Whether the call itself is left out of the journal. -/
  quiet : Bool
deriving Repr

inductive Operation where
  | registers (op : RegisterOp)
  | data (op : DataOp)
  | flash (op : FlashOp)
  | io (op : IoOp)
  | interrupts (op : InterruptOp)
  | clock (op : ClockOp)
  | run (op : RunOp)
  | probes (op : ProbeOp)
  | stateMachines (op : StateMachineOp)
  /-- Replace what an object does at some hooks. -/
  | define (who : String) (scripts : List (String × Script Operation))

end Avr.Bench

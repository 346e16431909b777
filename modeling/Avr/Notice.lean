import Avr.Fault

/-!
Contract: what a running simulation says about itself.

Owns:
- one constructor for each remark, its severity and its text.

A notice never influences the simulation; where notices go is up to whoever runs it.
-/

namespace Avr

/-- How much a notice matters, the most important first. -/
inductive Severity where
  | warning
  | debug
  | trace
deriving DecidableEq, Repr

def Severity.rank : Severity → Nat
  | .warning => 1
  | .debug => 2
  | .trace => 3

inductive PageAction where
  | erase
  | write
deriving DecidableEq, Repr

def PageAction.text : PageAction → String
  | .erase => "erase"
  | .write => "write"

inductive Notice where
  | readOutOfBounds (segment : String) (address : Nat)
  | writeOutOfBounds (segment : String) (address : Nat) (value : UInt8)
  | missingRegisterRead (register : Nat)
  | reservedWriteDropped (register : Nat) (value : UInt8)
  /-- A locked device register was accessed from its own callback. -/
  | registerBusy
  | forceFailed (vector : Nat) (fault : Fault)
  | clearFailed (vector : Nat) (fault : Fault)
  | spmResetFailed (fault : Fault)
  | pageFailed (action : PageAction) (fault : Fault)
  | reset (cycle : Nat)
  | timeout (cycle : Nat)
  | stopped (cycle : Nat)
  | dispatched (vector cycle : Nat)
  | woke (cycle : Nat)
  | breakpoint (pc : Nat)
  | sleeping (cycle : Nat)
  | breakExecuted (pc : Nat)
  | pageComplete (action : PageAction) (start : Nat)
  | instructionLimit (count : Nat)
  | scheduled (delay cycle : Nat)
  | unscheduled (count : Nat)
  | transition (machine : String) (source target : Int) (cycles : Nat)
deriving DecidableEq, Repr

namespace Notice

open Avr.Text

def severity : Notice → Severity
  | readOutOfBounds .. | writeOutOfBounds .. | missingRegisterRead .. | reservedWriteDropped ..
  | registerBusy | forceFailed .. | clearFailed .. | spmResetFailed .. | pageFailed .. => .warning
  | reset .. | timeout .. | stopped .. | dispatched .. | woke .. | breakpoint .. | sleeping ..
  | breakExecuted .. | pageComplete .. | instructionLimit .. => .debug
  | scheduled .. | unscheduled .. | transition .. => .trace

private def atCycle (what : String) (cycle : Nat) : String :=
  what ++ " at cycle " ++ decimal cycle

def text : Notice → String
  | readOutOfBounds segment address =>
      "segment " ++ segment ++ ": read out of bounds at 0x" ++ hexUpper 4 address
  | writeOutOfBounds segment address value =>
      "segment " ++ segment ++ ": write of 0x" ++ hexUpper 2 value.toNat
        ++ " out of bounds at 0x" ++ hexUpper 4 address
  | missingRegisterRead register => "read of nonexistent IO register 0x" ++ hexUpper 2 register
  | reservedWriteDropped register value =>
      "write of 0x" ++ hexUpper 2 value.toNat ++ " to reserved IO register 0x"
        ++ hexUpper 2 register ++ " dropped"
  | registerBusy => "IO register re-entered while locked; access dropped"
  | forceFailed vector fault =>
      "could not force interrupt " ++ decimal vector ++ ": " ++ fault.message
  | clearFailed vector fault =>
      "could not clear flag of interrupt " ++ decimal vector ++ ": " ++ fault.message
  | spmResetFailed fault => "SPMCSR reset failed: " ++ fault.message
  | pageFailed action fault => "flash page " ++ action.text ++ " failed: " ++ fault.message
  | reset cycle => atCycle "reset" cycle
  | timeout cycle => atCycle "timeout" cycle
  | stopped cycle => atCycle "stopped" cycle
  | dispatched vector cycle => atCycle ("interrupt " ++ decimal vector ++ " dispatched") cycle
  | woke cycle => atCycle "woke" cycle
  | breakpoint pc => "breakpoint at " ++ hexMarked 5 pc
  | sleeping cycle => atCycle "sleeping" cycle
  | breakExecuted pc => "BREAK at " ++ hexMarked 5 pc
  | pageComplete action start =>
      "flash page " ++ action.text ++ " at 0x" ++ hexUpper 5 start ++ " complete"
  | instructionLimit count =>
      "instruction count timeout after " ++ decimal count ++ " instructions"
  | scheduled delay cycle =>
      "event scheduled at +" ++ decimal delay ++ " (cycle " ++ decimal cycle ++ ")"
  | unscheduled count => decimal count ++ " scheduled event(s) removed"
  | transition machine source target cycles =>
      machine ++ ": " ++ integer source ++ " -> " ++ integer target ++ " in " ++ decimal cycles
        ++ " cycles"

end Notice

end Avr

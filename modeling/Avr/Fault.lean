import Avr.Text.Digits

/-!
Contract: the reasons for which a simulation fails.

Owns:
- one constructor for each cause, with what it is about;
- the message of each.

A fault ends the operation that met it. Accesses that a running program may make by mistake,
such as a read outside of memory, are reported and are no faults.
-/

namespace Avr

inductive Fault where
  /-- The instruction at `pc` cannot be executed on this part. -/
  | unimplemented (pc : Nat) (opcode : UInt16) (mnemonic : String)
  /-- An inspection fell outside of a segment. -/
  | outOfBounds (segment : String) (address : Nat)
  /-- A reserved IO register was written under strict IO. -/
  | reservedWrite (register : Nat) (value : UInt8)
  /-- A state machine has no such transition. -/
  | illegalTransition (machine : String) (source target : Int)
  /-- A state machine is still in a timed transition. -/
  | transitionInProgress (machine : String) (target : Int)
  | misaligned (pc : Nat)
  | programTooLarge (size flash : Nat)
  /-- The interrupt number is no slot of the table. -/
  | invalidInterrupt (vector count : Nat)
deriving DecidableEq, Repr

namespace Fault

open Avr.Text

def message : Fault → String
  | unimplemented pc opcode mnemonic =>
      "unimplemented instruction " ++ mnemonic ++ " (" ++ hexMarked 4 opcode.toNat ++ ") at "
        ++ hexMarked 5 pc
  | outOfBounds segment address =>
      "address " ++ hexMarked 1 address ++ " is out of bounds of segment " ++ segment
  | reservedWrite register value =>
      "wrote " ++ hexMarked 2 value.toNat ++ " to reserved IO register " ++ hexMarked 2 register
  | illegalTransition machine source target =>
      "state machine " ++ machine ++ " has no transition from " ++ integer source ++ " to "
        ++ integer target
  | transitionInProgress machine target =>
      "state machine " ++ machine ++ " cannot transition to " ++ integer target
        ++ " while a transition is in progress"
  | misaligned pc => "PC " ++ hexMarked 1 pc ++ " is not word-aligned"
  | programTooLarge size flash =>
      "program of " ++ decimal size ++ " bytes does not fit in " ++ decimal flash
        ++ " bytes of flash"
  | invalidInterrupt vector count =>
      "interrupt " ++ decimal vector ++ " is out of range (the table has " ++ decimal count
        ++ " slots)"

end Fault

end Avr

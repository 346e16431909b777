import Avr.Isa.Instr
import Avr.Machine.State

/-!
Contract: what a bench writes down.

Owns:
- answers of operations;
- the entries of the journal;
- the name and the arguments under which a call is entered.
-/

namespace Avr.Bench

inductive Answer where
  | nothing
  | done
  | truth (value : Bool)
  | number (value : Nat)
  | integer (value : Int)
  | text (value : String)
  | instr (i : Isa.Instr)
  | list (items : List Answer)
  | fault (fault : Fault)
  /-- A register number above 31 was given. -/
  | badRegister
  /-- A name was used that nothing has. -/
  | unknownName
deriving Repr

namespace Answer

def byte (value : UInt8) : Answer := .number value.toNat

def word (value : UInt16) : Answer := .number value.toNat

def optional : Option Answer → Answer
  | none => .nothing
  | some answer => answer

def ofAttempt : Except Fault Unit → Answer
  | .ok () => .done
  | .error cause => .fault cause

def ofByte : Except Fault UInt8 → Answer
  | .ok value => byte value
  | .error cause => .fault cause

end Answer

inductive Entry where
  | notice (notice : Notice)
  /-- An object was called at a cycle count. -/
  | called (who hook : String) (arguments : List Answer) (cycle : Nat)
  /-- An object performed an operation when it was called. -/
  | performed (who operation : String) (answer : Answer)
  | readOutside (who segment : String) (address : Nat) (blank : UInt8)
  | writeOutside (who segment : String) (address : Nat) (value : UInt8)
deriving Repr

open Answer in
/-- The name of a hook and what is told at it. -/
def hookCall : Hook → String × List Answer
  | .beforeInstruction address => ("before", [.number address])
  | .afterInstruction address => ("after", [.number address])
  | .beforeRead address => ("before_read", [word address])
  | .afterRead address value => ("after_read", [word address, byte value])
  | .beforeWrite address value => ("before_write", [word address, byte value])
  | .afterWrite address value => ("after_write", [word address, byte value])
  | .beforeIoRead register => ("io_before_read", [.number register])
  | .afterIoRead register value => ("io_after_read", [.number register, byte value])
  | .beforeIoWrite register value => ("io_before_write", [.number register, byte value])
  | .afterIoWrite register value => ("io_after_write", [.number register, byte value])
  | .beforeIoBitRead register bit => ("io_before_bit_read", [.number register, .number bit])
  | .afterIoBitRead register bit value =>
      ("io_after_bit_read", [.number register, .number bit, .truth value])
  | .beforeIoBitWrite register bit value =>
      ("io_before_bit_write", [.number register, .number bit, .truth value])
  | .afterIoBitWrite register bit value =>
      ("io_after_bit_write", [.number register, .number bit, .truth value])
  | .posted vector => ("posted", [.number vector])
  | .unposted vector => ("unposted", [.number vector])
  | .enabled vector => ("enabled", [.number vector])
  | .disabled vector => ("disabled", [.number vector])
  | .beforeInvoke vector => ("before_invoke", [.number vector])
  | .afterInvoke vector => ("after_invoke", [.number vector])
  | .forced vector => ("force", [.number vector])
  | .invoked vector => ("invoke", [.number vector])
  | .beforeTransition source target => ("before_transition", [.integer source, .integer target])
  | .afterTransition source target => ("after_transition", [.integer source, .integer target])
  | .event => ("event", [])

end Avr.Bench

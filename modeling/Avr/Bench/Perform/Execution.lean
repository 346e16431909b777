import Avr.Bench.Perform.Basic
import Avr.Machine.Reset
import Avr.Machine.Run

/-!
Contract: operations that execute the program.

Owns:
- single steps, with or without a trace, and runs;
- stopping, resetting and the settings.
-/

namespace Avr.Bench

open Avr.Machine

variable (env : Environment World)

def runAnswer : RunResult → Answer
  | .paused => .done
  | .failed fault => .fault fault
  | .unfinished => .nothing

/-- The place of a trace that a machine has reached. -/
def traceEntry (m : Machine World) : Answer :=
  .list [.number m.pc, .byte m.status.byte, .word m.stackPointer, .number m.cycles]

/-- Entries of a trace of at most `count` steps. A fault ends the trace. -/
def traceSteps : (count : Nat) → Play (List Answer)
  | 0 => return []
  | count + 1 => do
    let stepped ← (stepIn env).run
    let entry := traceEntry (← get)
    match stepped with
    | .ok () => return entry :: (← traceSteps count)
    | .error fault => return [entry, .fault fault]

/-- Whether a run goes on, with a register that has been looked up. -/
def RunCondition.holds (condition : RunCondition) (register : Option (Isa.Reg × UInt8))
    (calls : Nat) (m : Machine World) : Bool :=
  decide (calls ≤ condition.calls) && condition.pc != some m.pc &&
    register.all fun (r, value) => m.reg r != value

/-- Run while a condition holds, and answer how often it was asked too. -/
def runConditioned (condition : RunCondition) (register : Option (Isa.Reg × UInt8)) :
    Play Answer := do
  let ask (calls : Nat) : Play (Bool × Nat) := do
    let calls := calls + 1
    if condition.stopAt = some calls then
      modify requestStop
    return (condition.holds register calls (← get), calls)
  let (result, calls) ← runWhile env ask endless 0
  return .list [runAnswer result, .number calls]

def RunOp.perform : RunOp → Play Answer
  | .step => outcome (stepIn env)
  | .trace count => return .list (← traceSteps env count)
  | .run => return runAnswer (← Machine.run env endless)
  | .steps limit => return runAnswer (← runSome env limit)
  | .cycles count => return runAnswer (← runCycles env endless count)
  | .while condition =>
    match condition.register with
    | none => runConditioned env condition none
    | some (number, value) =>
      withRegister number fun r => runConditioned env condition (some (r, value))
  | .stop => do
    Machine.stop env
    return .nothing
  | .requestStop => silently Machine.requestStop
  | .reset => do
    Machine.reset env
    return .nothing
  | .settings chosen => silently fun m =>
    let undefinedFill := m.world.undefinedFill || chosen.fill.isUnseeded
    { m with settings := chosen, world := { m.world with undefinedFill } }
  | .describe => inspect fun m => .text m.describe

end Avr.Bench

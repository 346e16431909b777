import Avr.Machine.Step

/-!
Contract: running a machine for more than one step.

Owns:
- runs until a condition fails, for a number of steps, or for a number of cycles;
- single steps, which go through a breakpoint;
- the record of why the last execution ended.

The length of a run is bounded by an argument, so that every run is a value; a run that reaches the
bound reports itself unfinished.
-/

namespace Avr.Machine

variable {World : Type} (env : Environment World)

/-- How an execution ended. -/
inductive RunResult where
  /-- It paused; the machine says why. -/
  | paused
  | failed (fault : Fault)
  /-- It would go on beyond the bound it was given. -/
  | unfinished
deriving DecidableEq, Repr

def setPause (m : Machine World) (pause : Pause) : Machine World :=
  { m with pause }

/-- What a broken step means for the execution it belongs to. -/
def Break.verdict : Break → Except Fault Pause
  | .breakpoint _ => .ok .breakpoint
  | .break => .ok .break
  | .stopped => .ok .stop
  | .timeout => .ok .timeout
  | .failed fault => .error fault

/-- The steps of a run, which goes on while the condition holds.

The condition is asked before every step and may change the machine; `Memory` is what it remembers
from one time to the next. A stop that was asked for from outside comes first. -/
def runSteps {Memory : Type} (condition : Memory → Action World (Bool × Memory)) :
    (bound : Nat) → Memory → Action World (Option (Except Fault Pause) × Memory)
  | 0, memory => return (none, memory)
  | bound + 1, memory => do
    if (← get).stopRequested then
      modify fun m => { m with stopRequested := false }
      stop env
      return (some (.ok .stop), memory)
    let (holds, memory) ← condition memory
    if !holds then
      return (some (.ok .tripwire), memory)
    match ← (step env).run with
    | .ok () => runSteps condition bound memory
    | .error broken => return (some broken.verdict, memory)

/-- Record how an execution ended. -/
def conclude (verdict : Option (Except Fault Pause)) : Action World RunResult := do
  match verdict with
  | some (.ok pause) =>
    modify (setPause · pause)
    return .paused
  | some (.error fault) => return .failed fault
  | none => return .unfinished

/-- Run while a condition holds. -/
def runWhile {Memory : Type} (condition : Memory → Action World (Bool × Memory)) (bound : Nat)
    (memory : Memory) : Action World (RunResult × Memory) := do
  modify (setPause · .unsuccessful)
  let (verdict, memory) ← runSteps env condition bound memory
  return (← conclude verdict, memory)

/-- Run until the machine pauses. -/
def run (bound : Nat) : Action World RunResult := do
  return (← runWhile env (fun () => return (true, ())) bound ()).1

/-- Run for at most `limit` steps. -/
def runSome (limit : Nat) : Action World RunResult := do
  let condition (taken : Nat) : Action World (Bool × Nat) := return (taken < limit, taken + 1)
  return (← runWhile env condition (limit + 1) 0).1

/-- The cycle count at which a run for `cycles` ends. -/
def runEnd (m : Machine World) (cycles : Nat) : Nat :=
  min (m.cycles + cycles) counterLimit

/-- Run until the clock has advanced by at least `cycles`. -/
def runCycles (bound cycles : Nat) : Action World RunResult := do
  let finish := (← get).runEnd cycles
  let condition (_ : Unit) : Action World (Bool × Unit) := do
    return ((← get).cycles < finish, ())
  return (← runWhile env condition bound ()).1

/-- A step that goes through a breakpoint. -/
def stepThrough : Stepping World Unit :=
  tryCatch (step env) fun
    | .breakpoint _ => step env
    | broken => throw broken

/-- Execute one step. -/
def stepIn : Attempt World Unit := do
  match ← (stepThrough env).run with
  | .ok () => modify (setPause · .tripwire)
  | .error broken =>
    match broken.verdict with
    | .ok pause => modify (setPause · pause)
    | .error fault =>
      modify (setPause · .unsuccessful)
      throw fault

/-! ### Why the last execution ended -/

def hitBreakpoint (m : Machine World) : Bool :=
  m.pause = .breakpoint

def hitBreak (m : Machine World) : Bool :=
  m.pause = .break

/-- Whether the machine was stopped, by a request or by `BREAK`. -/
def hitStop (m : Machine World) : Bool :=
  m.pause = .stop ∨ m.pause = .break

def hitTimeout (m : Machine World) : Bool :=
  m.pause = .timeout

end Avr.Machine

import Avr.Machine.Delivery
import Avr.Machine.Execute

/-!
Contract: one step of a machine.

Owns, in the order of a step:
- refusal while stopped, and the delay that was asked for;
- the interrupt check and the dispatch of a handler;
- sleep, which goes on to the next event;
- the instruction at the program counter with the probes around it;
- the pause that was asked for during the step.

The interrupt check is skipped while nothing can have become pending; `RETI` puts one instruction
before the next dispatch.
-/

namespace Avr.Machine

open Avr.Isa

variable {World : Type} (env : Environment World)

/-- What keeps a step from completing normally. -/
inductive Break where
  | breakpoint (pc : Nat)
  | break
  | stopped
  | timeout
  | failed (fault : Fault)
deriving DecidableEq, Repr

abbrev Stepping (World : Type) := ExceptT Break (Action World)

/-- A fault ends the step. -/
def orBreak {α : Type} (attempted : Attempt World α) : Stepping World α := do
  match ← attempted.run with
  | .ok value => return value
  | .error fault => throw (.failed fault)

/-! ### Interrupts -/

/-- Fire what precedes the dispatch of a handler. -/
def beforeDispatch (vector : Nat) : Action World Unit := do
  notifyVector env vector .beforeInvoke
  notifyInvoked env vector

def wake : Action World Unit := do
  if (← get).sleeping then
    note env (.woke (← get).cycles)
  modify fun m => { m with
    sleeping := false
    state := if m.state = .sleeping then .running else m.state }

def dispatch (vector : Nat) : Attempt World Unit := do
  note env (.dispatched vector (← get).cycles)
  beforeDispatch env vector
  pushReturn env ((← get).pc / 2)
  modify fun m => { m with pc := m.part.vectorAddress vector }
  disableInterrupts env
  advance env 4
  wake env
  notifyVector env vector .afterInvoke

/-- Whether this step has to look at the interrupt table; forgets why. -/
def takeCheck (m : Machine World) : Machine World × Bool :=
  let (stale, table) := m.interrupts.table.takeStale
  ({ m.setTable table with innerLoop := true }, !m.innerLoop || stale)

/-- The interrupt check of a step. The result tells whether a dispatch was put off because of
`RETI`. -/
def pollInterrupts : Attempt World Bool := do
  let check ← answer takeCheck
  let m ← get
  if !check then
    return false
  else if m.justReturned then
    set { m with justReturned := false, innerLoop := false }
    return true
  else
    if m.status.i then
      match m.interrupts.table.first? with
      | some vector => dispatch env vector
      | none => pure ()
    return false

/-! ### Sleep and instructions -/

def spendDelay : Action World Unit := do
  let delay := (← get).delayCycles
  if 0 < delay then
    modify fun m => { m with delayCycles := 0 }
    advance env delay

/-- Cycles that a sleeping step takes: up to the next event, and at least one. -/
def sleepCycles (m : Machine World) : Nat :=
  max (m.clock.nextDelta?.getD 1) 1

def sleepOn : Action World Unit := do
  advance env (← get).sleepCycles
  modify fun m => { m with innerLoop := false }

/-- Pause at a breakpoint. Nothing ran, so an instruction that was owed stays owed. -/
def pauseAt (pc : Nat) (owed : Bool) : Stepping World Unit := do
  note env (.breakpoint pc)
  if owed then
    modify fun m => { m with justReturned := true, innerLoop := false }
  throw (.breakpoint pc)

/-- Run an instruction with the probes of all instructions and its own around it. -/
def runInstruction (pc : Nat) (i : Instr) (own : HandleList) : Attempt World Unit := do
  let all := (← get).probes
  notifyAll env all (.beforeInstruction pc)
  notifyAll env own (.beforeInstruction pc)
  let cycles ← execute env i
  advance env cycles
  notifyAll env own (.afterInstruction pc)
  notifyAll env all (.afterInstruction pc)
  modify fun m => { m with instructionsRun := m.instructionsRun + 1 }

def fetch : Attempt World Fetched := do
  let m ← get
  match m.flash.fetch m.pc with
  | .ok (fetched, flash) =>
    set { m with flash }
    return fetched
  | .error fault => throw fault

def stepInstruction (owed : Bool) : Stepping World Unit := do
  let pc := (← get).pc
  match ← orBreak fetch with
  | .plain i => orBreak (runInstruction env pc i [])
  | .probed i own => orBreak (runInstruction env pc i own)
  | .paused => pauseAt env pc owed

/-- End the step with the pause that was asked for, if any. -/
def takeHalt : Stepping World Unit := do
  let halt := (← get).halt
  modify fun m => { m with halt := none }
  match halt with
  | none => return
  | some .break => throw .break
  | some .timeout => throw .timeout
  | some .stop => throw .stopped

/-- One step: dispatch an interrupt if one is due, then execute an instruction or sleep. -/
def step : Stepping World Unit := do
  if (← get).state = .stopped then
    throw .stopped
  spendDelay env
  let owed ← orBreak (pollInterrupts env)
  if (← get).sleeping then
    sleepOn env
  else
    stepInstruction env owed
  takeHalt

end Avr.Machine

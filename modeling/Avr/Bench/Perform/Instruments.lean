import Avr.Bench.Perform.Basic
import Avr.Machine.IoAccess
import Avr.Machine.Transition

/-!
Contract: operations that attach instruments, and operations on state machines.

Owns:
- probes, watches and breakpoints;
- monitors by name;
- state machines by name, each kept alive by its names.
-/

namespace Avr.Bench

open Avr.Machine

variable (env : Environment World)

/-! ### Probes, watches, breakpoints -/

def changeFlash (change : Flash → Except Fault Flash) : Play Answer :=
  outcome (attempt fun m => return { m with flash := ← change m.flash })

/-- Change what is attached in flash and answer whether something was found. -/
def foundInFlash (change : Flash → Flash × Bool) : Play Answer :=
  found fun m =>
    let (flash, found) := change m.flash
    ({ m with flash }, found)

/-- The monitor of a specification, with the probe that it passes calls on to. -/
def MonitorSpec.make : MonitorSpec → Play Monitor
  | .counter => return .counter 0
  | .branch => return .branch 0 0
  | .sequence probe entry exit => do
    let inner ← withWorld (World.probe probe)
    return .sequence inner entry exit 0
  | .instructionLimit limit => return .instructionLimit limit 0

def withMonitor (who : String) (use : Handle → Monitor → Play Answer) : Play Answer := do
  let world := (← get).world
  match world.monitors.get? who with
  | none => return .unknownName
  | some h =>
    match world.object? h with
    | some (.monitor monitor) => use h monitor
    | _ => return .unknownName

def monitorAnswer (monitor : Monitor) : Answer :=
  .list (monitor.figures.map .number ++ [.text monitor.describe])

def ProbeOp.perform : ProbeOp → Play Answer
  | .probe who => do
    let h ← withWorld (World.probe who)
    silently fun m => { m with probes := HandleList.insert m.probes h }
  | .removeProbe who => do
    let h ← withWorld (World.probe who)
    found fun m =>
      let (probes, found) := HandleList.remove m.probes h
      ({ m with probes }, found)
  | .probeAt address who => do
    let h ← withWorld (World.probe who)
    changeFlash fun flash => flash.insertProbe address h
  | .removeProbeAt address who => do
    let h ← withWorld (World.probe who)
    foundInFlash fun flash => flash.removeProbe address h
  | .probeCount address => inspect fun m => .number (m.flash.probeCount address)
  | .watch address who => do
    let h ← withWorld (World.recorder who)
    outcome (attempt fun m => return { m with data := ← m.data.insertWatch address.toNat h })
  | .removeWatch address who => do
    let h ← withWorld (World.recorder who)
    found fun m =>
      let (data, found) := m.data.removeWatch address.toNat h
      ({ m with data }, found)
  | .watchIo register who => do
    let h ← withWorld (World.recorder who)
    outcome (insertIoWatch register h)
  | .removeWatchIo register who => do
    let h ← withWorld (World.recorder who)
    found fun m => m.removeIoWatch register h
  | .breakpoint address => changeFlash fun flash => flash.insertBreakpoint address
  | .removeBreakpoint address => foundInFlash fun flash => flash.removeBreakpoint address
  | .hasBreakpoint address => inspect fun m => .truth (m.flash.hasBreakpoint address)
  | .newMonitor who spec => do
    let monitor ← spec.make
    let h ← withWorld (World.addObject (.monitor monitor))
    modifyWorld fun world => { world with monitors := world.monitors.put who h }
    return .nothing
  | .monitor who => withMonitor who fun _ monitor => return monitorAnswer monitor
  | .resetMonitor who => withMonitor who fun h monitor => do
    modifyWorld fun world => world.setObject h (.monitor monitor.reset)
    return .nothing

/-! ### State machines -/

/-- Give a name to a state machine that counts it as an owner already; the name leaves the machine
it had before. -/
def nameStateMachine (who : String) (id : Nat) (m : Machine World) : Machine World :=
  let m := match m.world.stateMachines.get? who with
    | some before => m.dropOwner before
    | none => m
  { m with world := { m.world with stateMachines := m.world.stateMachines.put who id } }

/-- Take a name from its state machine, and tell whether it had one. -/
def unnameStateMachine (who : String) (m : Machine World) : Machine World × Bool :=
  match m.world.stateMachines.get? who with
  | none => (m, false)
  | some id =>
    let m := m.dropOwner id
    ({ m with world := { m.world with stateMachines := m.world.stateMachines.erase who } }, true)

def withStateMachine (who : String) (use : Nat → Automaton.StateMachine → Play Answer) :
    Play Answer := do
  let m ← get
  match m.world.stateMachines.get? who with
  | none => return .unknownName
  | some id =>
    match m.stateMachines[id]? with
    | none => return .unknownName
    | some automaton => use id automaton

/-- Replace the state machine of a name and answer whether something was found. -/
def changeStateMachine (who : String)
    (change : Automaton.StateMachine → Automaton.StateMachine × Bool) : Play Answer :=
  withStateMachine who fun id automaton => do
    let (changed, found) := change automaton
    modify fun m => m.modifyStateMachine id fun _ => changed
    return .truth found

def stateMachineAnswer (automaton : Automaton.StateMachine) : Answer :=
  .list [.text automaton.name, .integer automaton.current, .integer automaton.start,
    .number automaton.stateCount, .text automaton.describe]

/-- Add a state machine under a name. -/
def addStateMachine (who : String) (automaton : Automaton.StateMachine) : Play Answer :=
  silently fun m =>
    nameStateMachine who m.stateMachines.size
      { m with stateMachines := m.stateMachines.push automaton }

/-- Ask for a transition. The caller owns the machine until the call ends. -/
def requestOwned (id : Nat) (state : Int) : Play Answer := do
  modify fun m => m.addOwner id
  let result ← outcome (requestTransition env id state)
  modify fun m => m.dropOwner id
  return result

def StateMachineOp.perform : StateMachineOp → Play Answer
  | .new who name states start times =>
    match times.build? with
    | none => return .text "no matrix"
    | some times => addStateMachine who (.new name states start times)
  | .share who other => withStateMachine who fun id _ =>
    silently fun m => nameStateMachine other id (m.addOwner id)
  | .drop who => found (unnameStateMachine who)
  | .same who other => withStateMachine who fun one _ => withStateMachine other fun two _ =>
    return .truth (one = two)
  | .go who state => withStateMachine who fun id _ => requestOwned env id state
  | .info who => withStateMachine who fun _ automaton => return stateMachineAnswer automaton
  | .stateName who state => withStateMachine who fun _ automaton =>
    return .text (automaton.stateName state)
  | .time who source target => withStateMachine who fun _ automaton =>
    return .optional ((automaton.timeBetween source target).map .number)
  | .probe who observer => do
    let h ← withWorld (World.recorder observer)
    withStateMachine who fun id _ =>
      silently fun m => m.modifyStateMachine id fun automaton => automaton.insertProbe h
  | .removeProbe who observer => do
    let h ← withWorld (World.recorder observer)
    changeStateMachine who fun automaton => automaton.removeProbe h
  | .stateProbe who state observer => do
    let h ← withWorld (World.recorder observer)
    changeStateMachine who fun automaton => automaton.insertStateProbe state h
  | .removeStateProbe who state observer => do
    let h ← withWorld (World.recorder observer)
    changeStateMachine who fun automaton => automaton.removeStateProbe state h

end Avr.Bench

import Avr.Machine.Schedule

/-!
Contract: transitions of the state machines of a machine.

Owns:
- requests, which settle at once or schedule their completion;
- completion of timed transitions.

A state machine that nobody owns anymore completes nothing. A completion owns its state machine
until its probes have been called, so a transition that a probe begins can complete meanwhile.
-/

namespace Avr.Machine

open Avr.Automaton

variable {World : Type} (env : Environment World)

def modifyStateMachine (m : Machine World) (id : Nat) (change : StateMachine → StateMachine) :
    Machine World :=
  { m with stateMachines := m.stateMachines.modify id change }

def addOwner (m : Machine World) (id : Nat) : Machine World :=
  m.modifyStateMachine id fun automaton => { automaton with owners := automaton.owners + 1 }

def dropOwner (m : Machine World) (id : Nat) : Machine World :=
  m.modifyStateMachine id fun automaton => { automaton with owners := automaton.owners - 1 }

def settleIn (m : Machine World) (id : Nat) (state : Int) : Machine World :=
  m.modifyStateMachine id fun automaton => { automaton with current := state }

/-- Carry out an accepted transition of the given time. -/
def beginTransition (id : Nat) (automaton : StateMachine) (target : Int) (time : Nat) :
    Action World Unit := do
  let source := automaton.current
  let probes := automaton.probesFor source target
  note env (.transition automaton.name source target time)
  if 0 < time then
    modify fun m => m.settleIn id inTransition
  notifyAll env probes (.beforeTransition source target)
  if 0 < time then
    schedule env (.arrival id source target) time
  else
    modify fun m => m.settleIn id target
    notifyAll env probes (.afterTransition source target)

def requestTransition (id : Nat) (target : Int) : Attempt World Unit := do
  match (← get).stateMachines[id]? with
  | none => return
  | some automaton =>
    match automaton.accept target with
    | .error fault => throw fault
    | .ok time => beginTransition env id automaton target time

/-- Complete a timed transition, owning the state machine meanwhile. -/
def completeTransition (id : Nat) (source target : Int) : Action World Unit := do
  match (← get).stateMachines[id]? with
  | none => return
  | some automaton =>
    if 0 < automaton.owners then
      modify fun m => (m.addOwner id).settleIn id target
      notifyAll env (automaton.probesFor source target) (.afterTransition source target)
      modify fun m => m.dropOwner id

end Avr.Machine

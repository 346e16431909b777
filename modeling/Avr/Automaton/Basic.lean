import Avr.Automaton.Times
import Avr.Fault
import Avr.Handle
import Avr.Text.Layout

/-!
Contract: state machines for device models.

Owns:
- the current state, the named states and the probes of a state machine;
- the decision whether a requested transition is accepted.

Does not own: the clock on which a timed transition completes.
-/

namespace Avr.Automaton

/-- The current state while a timed transition is pending. -/
def inTransition : Int := -1

structure StateMachine where
  name : String
  stateNames : List String
  times : Times
  start : Int
  current : Int
  probes : HandleList
  /-- Probes of the transitions out of and into each state. -/
  stateProbes : List HandleList
  /-- Handles that keep the machine alive. -/
  owners : Nat
deriving DecidableEq, Repr

namespace StateMachine

def new (name : String) (stateNames : List String) (start : Int) (times : Times) :
    StateMachine where
  name := name
  stateNames := stateNames
  times := times
  start := start
  current := start
  probes := []
  stateProbes := stateNames.map fun _ => []
  owners := 1

def stateCount (m : StateMachine) : Nat :=
  m.stateNames.length

def stateName (m : StateMachine) (state : Int) : String :=
  if state = inTransition then
    "<in transition>"
  else
    let invalid := "<invalid state " ++ Text.integer state ++ ">"
    if state < 0 then invalid else m.stateNames.getD state.toNat invalid

/-- The time between two states, if there is such a transition. -/
def timeBetween (m : StateMachine) (source target : Int) : Option Nat :=
  if source < 0 ∨ target < 0 then none else m.times.time source.toNat target.toNat

/-- Probes of one state; none if the state does not exist. -/
def probesOf (m : StateMachine) (state : Int) : HandleList :=
  if state < 0 then [] else m.stateProbes.getD state.toNat []

/-- Probes of a transition in firing order: of all transitions, of the source, of the target. -/
def probesFor (m : StateMachine) (source target : Int) : HandleList :=
  m.probes ++ m.probesOf source ++ m.probesOf target

def hasState (m : StateMachine) (state : Int) : Bool :=
  0 ≤ state ∧ state < m.stateCount

/-- The time of a requested transition, or why it is refused. -/
def accept (m : StateMachine) (target : Int) : Except Fault Nat :=
  if m.hasState target then
    if m.current = inTransition then
      .error (.transitionInProgress m.name target)
    else
      match m.timeBetween m.current target with
      | some time => .ok time
      | none => .error (.illegalTransition m.name m.current target)
  else
    .error (.illegalTransition m.name m.current target)

def insertProbe (m : StateMachine) (probe : Handle) : StateMachine :=
  { m with probes := HandleList.insert m.probes probe }

def removeProbe (m : StateMachine) (probe : Handle) : StateMachine × Bool :=
  let (probes, found) := HandleList.remove m.probes probe
  ({ m with probes }, found)

/-- Add a probe to a state; refused if the state does not exist. -/
def insertStateProbe (m : StateMachine) (state : Int) (probe : Handle) : StateMachine × Bool :=
  if m.hasState state then
    ({ m with stateProbes := m.stateProbes.modify state.toNat (HandleList.insert · probe) }, true)
  else
    (m, false)

def removeStateProbe (m : StateMachine) (state : Int) (probe : Handle) : StateMachine × Bool :=
  if m.hasState state then
    let (rest, found) := HandleList.remove (m.probesOf state) probe
    ({ m with stateProbes := m.stateProbes.set state.toNat rest }, found)
  else
    (m, false)

def describe (m : StateMachine) : String :=
  Text.openRecord "FiniteStateMachine"
    [("name", Text.quoted m.name),
      ("states", Text.bracketed (m.stateNames.map Text.quoted)),
      ("cur_state", Text.integer m.current),
      ("probes", Text.decimal m.probes.length)]

end StateMachine

end Avr.Automaton

import Avr.Bench.Session
import Avr.GlobalClock
import Avr.Machine.Run

/-!
Contract: several sessions run in step.

Owns:
- the local timer of a node and the run that it accompanies;
- the count of global ticks of the group.

Nodes share nothing, so each is run on its own; the firings of their timers decide the ticks.
-/

namespace Avr.Bench

open Avr.Machine

/-- What became of one node: the observations of its plan, and one after the common run. -/
structure NodeReport where
  preparation : List Observation
  finish : Observation
  arrivals : Nat

/-- Install the local timer of a node, which fires once in a period of the given milliseconds. -/
def installTimer (env : Environment World) (period : Float) : Play Unit := do
  let timer ← withWorld (World.addObject .timer)
  let h ← withWorld (World.addObject .token)
  let cycles := GlobalClock.localPeriod (cyclesOfMillis (← get).part.hz period)
  let _ ← schedulePeriodic env h (.outside timer) cycles

/-- Run a prepared node for a number of cycles. Notices are not entered meanwhile. -/
def runNode (env : Environment World) (period : Float) (cycles : Nat) : Play Answer := do
  modifyWorld fun world => { world with verbosity := 0 }
  installTimer env period
  return runAnswer (← runCycles env endless cycles)

def NodeReport.of (verbosity : Nat) (period : Float) (cycles : Nat) (plan : Plan) : NodeReport :=
  let (preparation, session) := Session.carryOut verbosity plan
  let (finish, session) := session.play (runNode (environment callDepth) period cycles)
  ⟨preparation, finish, session.machine.world.timerFirings⟩

def runGroup (verbosity : Nat) (period : Float) (cycles : Nat) (plans : List Plan) :
    List NodeReport × Nat :=
  let reports := plans.map (NodeReport.of verbosity period cycles)
  (reports, GlobalClock.ticks (reports.map NodeReport.arrivals))

end Avr.Bench

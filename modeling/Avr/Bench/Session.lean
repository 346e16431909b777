import Avr.Bench.Callbacks
import Avr.Bench.Observation

/-!
Contract: a bench session.

Owns:
- making a machine and loading its program;
- performing operations one after the other, with an observation after each.
-/

namespace Avr.Bench

open Avr.Machine

/-- What a session starts from and what it does. -/
structure Plan where
  part : Part
  settings : Settings
  /-- How the program is loaded, if there is one. -/
  load : Option FlashOp
  operations : List Operation

/-- A machine together with what was last seen of it. -/
structure Session where
  machine : Machine World
  glance : Glance

namespace Session

/-- Perform something on the machine and observe it. -/
def play (session : Session) (performed : Play Answer) : Observation × Session :=
  let (answer, machine) := performed.run session.machine
  let (observation, glance, machine) := observe answer session.glance machine
  (observation, ⟨machine, glance⟩)

/-- Play all of a list in order. -/
def playAll (session : Session) : List (Play Answer) → List Observation × Session
  | [] => ([], session)
  | performed :: rest =>
    let (observation, session) := session.play performed
    let (observations, session) := session.playAll rest
    (observation :: observations, session)

/-- The machine of a plan after power-on. -/
def start (verbosity : Nat) (plan : Plan) : Session :=
  let world := { World.new verbosity with undefinedFill := plan.settings.fill.isUnseeded }
  let machine := Machine.new plan.part plan.settings world
  ⟨machine, Glance.first machine⟩

/-- Everything that a plan performs: the loading of its program, then its operations. -/
def script (env : Environment World) (plan : Plan) : List (Play Answer) :=
  let load : Play Answer := match plan.load with
    | none => return .nothing
    | some op => op.perform env
  load :: plan.operations.map fun op => op.perform env

/-- Carry out a plan: an observation after loading and after each operation. -/
def carryOut (verbosity : Nat) (plan : Plan) : List Observation × Session :=
  (start verbosity plan).playAll (script (environment callDepth) plan)

end Session

end Avr.Bench

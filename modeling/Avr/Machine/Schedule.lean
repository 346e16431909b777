import Avr.Machine.State

/-!
Contract: putting events on the clock, and asking for a pause.

Owns:
- scheduling and cancelling of events;
- periodic events and timeouts;
- the requests to stop or to pause at the end of the current step.

Does not own: delivery of events.
-/

namespace Avr.Machine

open Avr.Time

variable {World : Type} (env : Environment World)

def setQueue (m : Machine World) (queue : DeltaQueue Event) : Machine World :=
  { m with clock := { m.clock with queue } }

/-- Schedule an event `delay` cycles from now. -/
def schedule (event : Event) (delay : Nat) : Action World Unit := do
  note env (.scheduled delay ((← get).cycles + delay))
  modify fun m => m.setQueue (m.clock.queue.add event delay)

/-- Remove every scheduling of an event, and tell whether there was one. -/
def unschedule (event : Event) : Action World Bool := do
  let removed := (← get).clock.queue.countMatching fun queued => queued = event
  modify fun m => m.setQueue (m.clock.queue.removeMatching fun queued => queued = event)
  if 0 < removed then
    note env (.unscheduled removed)
  return 0 < removed

/-- Schedule an event every `period` cycles, the first time `period` cycles from now.

The result is what `unschedule` needs to end it. A period of zero counts as one. -/
def schedulePeriodic (handle : Handle) (event : Event) (period : Nat) : Action World Event := do
  let periodic := Event.periodic handle event (max period 1)
  schedule env periodic (max period 1)
  return periodic

/-- Schedule a pause of the execution `delay` cycles from now. -/
def scheduleTimeout (handle : Handle) (delay : Nat) : Action World Event := do
  schedule env (.timeout handle) delay
  return .timeout handle

/-- Pause at the end of the current step, unless a pause has been asked for already. -/
def timeout : Action World Unit := do
  note env (.timeout (← get).cycles)
  modify fun m => { m with halt := m.halt.or (some .timeout) }

/-- Stop the machine until it is reset. -/
def stop : Action World Unit := do
  note env (.stopped (← get).cycles)
  modify fun m => { m with state := .stopped, halt := some .stop }

/-- Stop the machine before its next step in a run. -/
def requestStop (m : Machine World) : Machine World :=
  { m with stopRequested := true }

/-- Spend cycles before the next instruction. -/
def delay (m : Machine World) (cycles : Nat) : Machine World :=
  { m with delayCycles := m.delayCycles + cycles }

end Avr.Machine

import Avr.Machine.DataAccess
import Avr.Machine.Transition

/-!
Contract: the passing of time.

Owns:
- what each event does when its time comes;
- delivery of everything that becomes due while the clock advances.

Events of one batch fire in order, also when an earlier one cancels a later one.
-/

namespace Avr.Machine

open Avr.Time

variable {World : Type} (env : Environment World)

/-- Fire an event. A periodic event is scheduled again before the event it wraps fires. -/
def fire : Event → Action World Unit
  | .outside h => env.notify h .event
  | .periodic handle event period => do
    schedule env (.periodic handle event period) period
    fire event
  | .timeout _ => timeout env
  | .spmReset => settleOperation env
  | .pageOperation start size contents => completePage env start size contents
  | .arrival machine source target => completeTransition env machine source target

/-- Deliver due batches, at most `bound` of them. -/
def deliver : (bound : Nat) → Action World Unit
  | 0 => return
  | bound + 1 => do
    match ← answer fun m =>
      let (batch, queue) := m.clock.queue.popDue
      (m.setQueue queue, batch) with
    | none => return
    | some batch =>
      batch.forM (fire env)
      deliver bound

/-- Advance the clock, firing every event that becomes due in order. -/
def advance (cycles : Nat) : Action World Unit := do
  modify fun m => m.setQueue (m.clock.queue.advance cycles)
  deliver env env.patience

end Avr.Machine

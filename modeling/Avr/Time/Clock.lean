import Avr.Part
import Avr.Time.DeltaQueue
import Avr.Time.Event

/-!
Contract: the main clock.

Owns:
- the frequency and the queue of events;
- the text of a clock.

Does not own: delivery of events, which needs the machine.
-/

namespace Avr.Time

structure Clock where
  hz : Nat
  queue : DeltaQueue Event
deriving DecidableEq, Repr

namespace Clock

def new (hz : Nat) : Clock := ⟨hz, DeltaQueue.empty⟩

def count (c : Clock) : Nat :=
  c.queue.count

def nextDelta? (c : Clock) : Option Nat :=
  c.queue.headDelta?

def describe (c : Clock) : String :=
  Text.record "MainClock" [("hz", Text.decimal c.hz), ("queue", c.queue.describe)]

end Clock

end Avr.Time

import Avr.Handle

/-!
Contract: what can be queued on the clock.

Owns:
- events of outside objects, and the events that the machine queues for itself;
- identity of events.

Does not own: what an event does when its time comes.
-/

namespace Avr.Time

/-- An event on the clock.

Equality is identity: two schedulings that are told apart carry different handles. -/
inductive Event where
  | outside (handle : Handle)
  /-- Fires the wrapped event, `period` cycles after the last time, again and again. -/
  | periodic (handle : Handle) (event : Event) (period : Nat)
  | timeout (handle : Handle)
  | spmReset
  /-- Completes the erasure of a page, or its write if there are `contents`. -/
  | pageOperation (start size : Nat) (contents : Option (List UInt8))
  /-- Completes a timed transition of a state machine. -/
  | arrival (machine : Nat) (source target : Int)
deriving DecidableEq, Repr

end Avr.Time

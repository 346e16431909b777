import Avr.Time.Clock

/-!
Contract: a clock that ticks once every `divider` cycles of a driving clock.

Owns:
- the tick count, aligned to the driver cycle of creation or of the last reset;
- the driver delay of an event that is scheduled in ticks.
-/

namespace Avr.Time

structure Prescaler where
  divider : Nat
  /-- Driver cycle that ticks are aligned to. -/
  base : Nat
  /-- Ticks counted before `base`. -/
  earlier : Nat
deriving DecidableEq, Repr

namespace Prescaler

/-- A prescaler aligned to driver cycle `now`; divider zero counts as one. -/
def new (now divider : Nat) : Prescaler := ⟨max divider 1, now, 0⟩

def hz (p : Prescaler) (driverHz : Nat) : Nat :=
  driverHz / p.divider

def elapsed (p : Prescaler) (now : Nat) : Nat :=
  now - p.base

def count (p : Prescaler) (now : Nat) : Nat :=
  p.earlier + p.elapsed now / p.divider

/-- Where the tick begins that lies `ticks` ahead, in driver cycles from `base`. It is computed in
words of 64 bits, which wrap around. -/
def boundary (p : Prescaler) (now ticks : Nat) : Nat :=
  (p.elapsed now / p.divider + ticks) % wordLimit * p.divider % wordLimit

/-- Driver cycles until the tick that lies `ticks` ahead; zero ticks ahead is now. -/
def delay (p : Prescaler) (now ticks : Nat) : Nat :=
  p.boundary now ticks - p.elapsed now

/-- Align the ticks to driver cycle `now`, keeping the count. -/
def reset (p : Prescaler) (now : Nat) : Prescaler :=
  { p with earlier := p.count now, base := now }

def describe (p : Prescaler) : String :=
  Text.record "ClockPrescaler"
    [("divider", Text.decimal p.divider),
      ("base", Text.decimal p.base),
      ("ticks_before_base", Text.decimal p.earlier)]

end Prescaler

end Avr.Time

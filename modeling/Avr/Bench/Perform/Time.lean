import Avr.Bench.Perform.Basic
import Avr.Machine.Delivery

/-!
Contract: operations on the clock.

Owns:
- passing of time, events and timeouts by name;
- conversions between cycles and milliseconds;
- prescalers by name.
-/

namespace Avr.Bench

open Avr.Time Avr.Machine

variable (env : Environment World)

/-- A number with a fraction, by the hexadecimal digits of its bits. -/
def floatAnswer (value : Float) : Answer :=
  .text (Text.hex 16 value.toBits.toNat)

/-- Name an event, so that it can be cancelled. -/
def nameEvent (name : String) (event : Event) : Play Answer := do
  modifyWorld fun world => { world with events := world.events.put name event }
  return .nothing

/-- Use the prescaler of a name. -/
def withPrescaler (who : String) (use : Prescaler → Play Answer) : Play Answer := do
  match (← get).world.prescalers.get? who with
  | none => return .unknownName
  | some prescaler => use prescaler

def putPrescaler (who : String) (prescaler : Prescaler) (m : Machine World) : Machine World :=
  { m with world := { m.world with prescalers := m.world.prescalers.put who prescaler } }

def prescalerAnswer (prescaler : Prescaler) (m : Machine World) : Answer :=
  .list [.number prescaler.divider, .number (prescaler.hz m.clock.hz),
    .number (prescaler.count m.cycles), .text prescaler.describe]

def clockAnswer (clock : Clock) : Answer :=
  .list [.number clock.hz, .number clock.count, .optional (clock.nextDelta?.map .number),
    .text clock.describe]

def ClockOp.perform : ClockOp → Play Answer
  | .advance cycles => do
    Machine.advance env cycles
    return .nothing
  | .delay cycles => silently fun m => m.delay cycles
  | .event who cycles => do
    let event ← withWorld (World.event who)
    schedule env event cycles
    return .nothing
  | .removeEvent who => do
    let event ← withWorld (World.event who)
    return .truth (← unschedule env event)
  | .periodic handle who period => do
    let event ← withWorld (World.event who)
    let h ← withWorld (World.addObject .token)
    nameEvent handle (← schedulePeriodic env h event period)
  | .timeout handle cycles => do
    let h ← withWorld (World.addObject .token)
    nameEvent handle (← scheduleTimeout env h cycles)
  | .timeoutNow => do
    Machine.timeout env
    return .nothing
  | .info => inspect fun m => clockAnswer m.clock
  | .toCycles millis => inspect fun m => .number (cyclesOfMillis m.clock.hz millis)
  | .toMillis cycles => inspect fun m => floatAnswer (millisOfCycles m.clock.hz cycles)
  | .newPrescaler who divider => silently fun m => putPrescaler who (.new m.cycles divider) m
  | .prescaler who => withPrescaler who fun prescaler => inspect (prescalerAnswer prescaler)
  | .prescaledEvent who target ticks => withPrescaler who fun prescaler => do
    let event ← withWorld (World.event target)
    schedule env event (prescaler.delay (← get).cycles ticks)
    return .nothing
  | .removePrescaled who target => withPrescaler who fun _ => do
    let event ← withWorld (World.event target)
    return .truth (← unschedule env event)
  | .resetPrescaler who => withPrescaler who fun prescaler =>
    silently fun m => putPrescaler who (prescaler.reset m.cycles) m

end Avr.Bench

import Avr.Handle
import Avr.Interrupt.Table
import Avr.Io.FlagPair

/-!
Contract: the interrupt table together with everyone who follows it.

Owns:
- the probes of each vector and of all vectors;
- the notification that tells a device about its interrupt.

Changes made on the table itself call nobody; the machine's own operations call the probes.
-/

namespace Avr.Interrupt

/-- Who is told when an interrupt is forced or dispatched. -/
inductive Notification where
  | outside (handle : Handle)
  /-- One bit of a flag pair: forcing sets the flag, dispatching clears it unless it is sticky. -/
  | flag (pair : Io.FlagPair) (bit : Nat) (sticky : Bool)
deriving DecidableEq, Repr

structure Controller where
  table : Table
  probes : List HandleList
  globalProbes : HandleList
  notifications : List (Option Notification)
deriving DecidableEq, Repr

namespace Controller

def new (size : Nat) : Controller :=
  let table := Table.new size
  { table
    probes := List.replicate table.size []
    globalProbes := []
    notifications := List.replicate table.size none }

/-- Probes of a vector in firing order: of all vectors, then its own. -/
def probesFor (c : Controller) (vector : Nat) : HandleList :=
  c.globalProbes ++ c.probes.getD vector []

def notification? (c : Controller) (vector : Nat) : Option Notification :=
  (c.notifications[vector]?).join

/-- Register who is told about an interrupt, in place of anyone before. -/
def register (c : Controller) (vector : Nat) (notification : Notification) :
    Except Fault Controller := do
  c.table.check vector
  return { c with notifications := c.notifications.set vector (some notification) }

def insertProbe (c : Controller) (vector : Nat) (probe : Handle) : Except Fault Controller := do
  c.table.check vector
  return { c with probes := c.probes.modify vector (HandleList.insert · probe) }

def removeProbe (c : Controller) (vector : Nat) (probe : Handle) : Controller × Bool :=
  let (rest, found) := HandleList.remove (c.probes.getD vector []) probe
  ({ c with probes := c.probes.set vector rest }, found)

def insertGlobalProbe (c : Controller) (probe : Handle) : Controller :=
  { c with globalProbes := HandleList.insert c.globalProbes probe }

def removeGlobalProbe (c : Controller) (probe : Handle) : Controller × Bool :=
  let (globalProbes, found) := HandleList.remove c.globalProbes probe
  ({ c with globalProbes }, found)

end Controller

end Avr.Interrupt

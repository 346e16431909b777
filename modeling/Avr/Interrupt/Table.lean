import Avr.Fault
import Avr.Text.Layout

/-!
Contract: which interrupts are requested, which are enabled, and which comes first.

Owns:
- the masks of posted, enabled and pending vectors;
- the mark that tells a running machine to look at the table again.

Pending is always posted and enabled. The lowest pending vector has the highest priority.
-/

namespace Avr.Interrupt

/-- A set of vectors. -/
abbrev Mask := BitVec 64

/-- Largest number of vectors. -/
def maxVectors : Nat := 64

/-- The set of one vector. -/
def single (vector : Nat) : Mask :=
  BitVec.twoPow 64 vector

structure Table where
  size : Nat
  posted : Mask
  enabled : Mask
  pending : Mask
  /-- Set whenever a vector may have become pending. -/
  stale : Bool
deriving DecidableEq, Repr

namespace Table

/-- A table with nothing posted or enabled; the size is limited to `maxVectors`. -/
def new (size : Nat) : Table := ⟨min size maxVectors, 0, 0, 0, false⟩

def update (t : Table) : Table :=
  { t with pending := t.posted &&& t.enabled }

/-- Refuse vectors that the table has no slot for. -/
def check (t : Table) (vector : Nat) : Except Fault Unit :=
  if vector < t.size then .ok () else .error (.invalidInterrupt vector t.size)

def post (t : Table) (vector : Nat) : Except Fault Table := do
  t.check vector
  return { ({ t with posted := t.posted ||| single vector }).update with stale := true }

def unpost (t : Table) (vector : Nat) : Except Fault Table := do
  t.check vector
  return ({ t with posted := t.posted &&& ~~~single vector }).update

def enable (t : Table) (vector : Nat) : Except Fault Table := do
  t.check vector
  return { ({ t with enabled := t.enabled ||| single vector }).update with stale := true }

def disable (t : Table) (vector : Nat) : Except Fault Table := do
  t.check vector
  return ({ t with enabled := t.enabled &&& ~~~single vector }).update

/-- Membership in a mask; vectors without a slot are in none. -/
def holds (t : Table) (mask : Mask) (vector : Nat) : Bool :=
  vector < t.size && mask.getLsbD vector

def isPosted (t : Table) (vector : Nat) : Bool :=
  t.holds t.posted vector

def isEnabled (t : Table) (vector : Nat) : Bool :=
  t.holds t.enabled vector

def isPending (t : Table) (vector : Nat) : Bool :=
  t.holds t.pending vector

/-- The pending vector to dispatch next. -/
def first? (t : Table) : Option Nat :=
  (List.range maxVectors).find? fun vector => t.pending.getLsbD vector

def markStale (t : Table) : Table :=
  { t with stale := true }

/-- The mark, which reading it clears. -/
def takeStale (t : Table) : Bool × Table :=
  (t.stale, { t with stale := false })

def describe (t : Table) : String :=
  Text.openRecord "InterruptTable"
    [("len", Text.decimal t.size),
      ("posted", Text.hexMarked 1 t.posted.toNat),
      ("enabled", Text.hexMarked 1 t.enabled.toNat),
      ("pending", Text.hexMarked 1 t.pending.toNat)]

end Table

end Avr.Interrupt

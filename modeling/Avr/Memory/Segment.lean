import Avr.Handle
import Avr.Notice
import Avr.Text.Layout

/-!
Contract: bounded byte memory with watches.

Owns:
- inspection (`get`, `set`, `load`), where an address outside is a fault;
- access by running programs (`read`, `write`), where such an address is reported and execution
  goes on;
- the table of watches, which exists only while some address has one.

Does not own: when watches are called.
-/

namespace Avr

/-- Where reports go whose sender needs no machine: notices, and accesses outside of a segment.

`World` is whatever the receivers remember. -/
structure Reporting (World : Type) where
  note : Notice → World → World
  /-- A read outside of the named segment; the byte answered is the result of the read. -/
  readOutside : Handle → (segment : String) → (address : Nat) → (blank : UInt8) → World →
    UInt8 × World
  writeOutside : Handle → (segment : String) → (address : Nat) → (value : UInt8) → World → World

namespace Memory

structure Segment where
  name : String
  bytes : Array UInt8
  /-- What a read outside of the segment gives by default. -/
  blank : UInt8
  /-- Watches of each address; absent while there are none. -/
  watches : Option (Array HandleList)
  /-- Receiver of accesses outside; notices are sent if there is none. -/
  reporter : Option Handle
deriving DecidableEq, Repr

namespace Segment

def new (name : String) (size : Nat) (blank : UInt8) : Segment where
  name := name
  bytes := Array.replicate size blank
  blank := blank
  watches := none
  reporter := none

def size (s : Segment) : Nat :=
  s.bytes.size

def read {World : Type} (reporting : Reporting World) (s : Segment) (address : Nat)
    (world : World) : UInt8 × World :=
  match s.bytes[address]? with
  | some value => (value, world)
  | none =>
    match s.reporter with
    | some reporter => reporting.readOutside reporter s.name address s.blank world
    | none => (s.blank, reporting.note (.readOutOfBounds s.name address) world)

def write {World : Type} (reporting : Reporting World) (s : Segment) (address : Nat)
    (value : UInt8) (world : World) : Segment × World :=
  if address < s.bytes.size then
    ({ s with bytes := s.bytes.setIfInBounds address value }, world)
  else
    match s.reporter with
    | some reporter => (s, reporting.writeOutside reporter s.name address value world)
    | none => (s, reporting.note (.writeOutOfBounds s.name address value) world)

def outside (s : Segment) (address : Nat) : Fault :=
  .outOfBounds s.name address

def get (s : Segment) (address : Nat) : Except Fault UInt8 :=
  match s.bytes[address]? with
  | some value => .ok value
  | none => .error (s.outside address)

def set (s : Segment) (address : Nat) (value : UInt8) : Except Fault Segment :=
  if address < s.bytes.size then
    .ok { s with bytes := s.bytes.setIfInBounds address value }
  else
    .error (s.outside address)

/-- The bytes with `values` written from `offset` on; what would lie outside is dropped. -/
def overwrite (bytes : Array UInt8) (offset : Nat) : List UInt8 → Array UInt8
  | [] => bytes
  | value :: rest => overwrite (bytes.setIfInBounds offset value) (offset + 1) rest

/-- Copy bytes into the segment. All of them must fit; the fault names the last address. -/
def load (s : Segment) (offset : Nat) (values : List UInt8) : Except Fault Segment :=
  if offset + values.length ≤ s.bytes.size then
    .ok { s with bytes := overwrite s.bytes offset values }
  else
    .error (s.outside (min (offset + values.length) 0xFFFFFFFFFFFFFFFF - 1))

def fill (s : Segment) (value : UInt8) : Segment :=
  { s with bytes := Array.replicate s.bytes.size value }

def watchesAt (s : Segment) (address : Nat) : Option HandleList :=
  match s.watches with
  | none => none
  | some table =>
    match table[address]? with
    | none | some [] => none
    | some handles => some handles

/-- Add a watch behind those already at the address. -/
def insertWatch (s : Segment) (address : Nat) (watch : Handle) : Except Fault Segment :=
  if address < s.bytes.size then
    let table := s.watches.getD (Array.replicate s.bytes.size [])
    .ok { s with watches := some (table.modify address (HandleList.insert · watch)) }
  else
    .error (s.outside address)

/-- Remove the first entry of a watch at the address, and tell whether there was one. -/
def removeWatch (s : Segment) (address : Nat) (watch : Handle) : Segment × Bool :=
  match s.watches with
  | none => (s, false)
  | some table =>
    match table[address]? with
    | none => (s, false)
    | some handles =>
      let (rest, found) := handles.remove watch
      if found then
        let table := table.setIfInBounds address rest
        ({ s with watches := if table.all List.isEmpty then none else some table }, true)
      else
        (s, false)

def describe (s : Segment) : String :=
  Text.openRecord "Segment"
    [("name", Text.quoted s.name),
      ("len", Text.decimal s.size),
      ("default_value", Text.decimal s.blank.toNat),
      ("watched", Text.truth s.watches.isSome)]

theorem size_overwrite (bytes : Array UInt8) (offset : Nat) (values : List UInt8) :
    (overwrite bytes offset values).size = bytes.size := by
  induction values generalizing bytes offset with
  | nil => rfl
  | cons value rest inductionHypothesis => simp [overwrite, inductionHypothesis]

end Segment

end Memory

end Avr

import Avr.Program
import Avr.Memory.Segment

/-!
Contract: program memory.

Owns:
- the flash bytes and, for each word, a slot that caches the instruction decoded there;
- invalidation of the slots under every byte that changes;
- the probes and the breakpoint of an instruction, which wrap its slot while there are any.

Why slots are invalidated in pairs: a slot may hold a two-word instruction, so the slot before a
changed word depends on it too.
-/

namespace Avr

open Avr.Isa Avr.Memory

/-- What is attached to one instruction. -/
structure Attachment where
  instr : Instr
  probes : HandleList
  breakpoint : Bool
  /-- Set once the breakpoint has paused execution, so that the next fetch runs the instruction. -/
  fired : Bool
deriving DecidableEq, Repr

/-- The decoded instruction of one word of flash. -/
inductive Slot where
  | empty
  | ready (instr : Instr)
  | attached (attachment : Attachment)
deriving DecidableEq, Repr

/-- What to do with the instruction at the program counter. -/
inductive Fetched where
  | plain (instr : Instr)
  | probed (instr : Instr) (probes : HandleList)
  | paused
deriving DecidableEq, Repr

structure Flash where
  segment : Segment
  slots : Array Slot
deriving DecidableEq, Repr

namespace Flash

/-- Erased flash. -/
def new (size : Nat) : Flash where
  segment := Segment.new "flash" size erasedByte
  slots := Array.replicate (size / 2) .empty

def size (f : Flash) : Nat :=
  f.segment.size

/-- The word with the given index; whatever lies past the end counts as erased. -/
def word (f : Flash) (index : Nat) : UInt16 :=
  match f.segment.bytes[2 * index]?, f.segment.bytes[2 * index + 1]? with
  | some low, some high => wordOfBytes low high
  | _, _ => erasedWord

/-- The instruction that the bytes of flash hold at a word. -/
def decodeAt (f : Flash) (index : Nat) : Instr :=
  Instr.decode (f.word index) (f.word (index + 1))

/-- The word index of the instruction at a byte address. -/
def wordIndex (f : Flash) (address : Nat) : Except Fault Nat :=
  if address % 2 = 0 then
    if address / 2 < f.slots.size then
      .ok (address / 2)
    else
      .error (.outOfBounds "flash" address)
  else
    .error (.misaligned address)

def slot (f : Flash) (index : Nat) : Slot :=
  f.slots.getD index .empty

def setSlot (f : Flash) (index : Nat) (slot : Slot) : Flash :=
  { f with slots := f.slots.setIfInBounds index slot }

/-- Make the slot of one word agree with the bytes again. -/
def refresh (f : Flash) (index : Nat) : Flash :=
  match f.slot index with
  | .empty => f
  | .ready _ => f.setSlot index .empty
  | .attached attachment =>
      f.setSlot index (.attached { attachment with instr := f.decodeAt index })

/-- Refresh the slot of a changed word and the slot before it. -/
def invalidate (f : Flash) (index : Nat) : Flash :=
  if index = 0 then f.refresh 0 else (f.refresh (index - 1)).refresh index

/-- Invalidate `count` words from `first` on. -/
def invalidateFrom (f : Flash) (first : Nat) : Nat → Flash
  | 0 => f
  | count + 1 => invalidateFrom (f.invalidate first) (first + 1) count

def get (f : Flash) (address : Nat) : Except Fault UInt8 :=
  f.segment.get address

def set (f : Flash) (address : Nat) (value : UInt8) : Except Fault Flash := do
  let segment ← f.segment.set address value
  return ({ f with segment }).invalidate (address / 2)

/-- Copy bytes into flash. -/
def load (f : Flash) (offset : Nat) (values : List UInt8) : Except Fault Flash := do
  let segment ← f.segment.load offset values
  let first := offset / 2
  let last := (offset + values.length + 1) / 2
  return ({ f with segment }).invalidateFrom first (last + 1 - first)

/-- The instruction at a byte address, seen through whatever is attached to it. -/
def instr (f : Flash) (address : Nat) : Except Fault Instr := do
  let index ← f.wordIndex address
  return match f.slot index with
    | .ready instr => instr
    | .attached attachment => attachment.instr
    | .empty => f.decodeAt index

/-- Fetch the instruction at the program counter for execution.

A breakpoint pauses once and lets the next fetch through. -/
def fetch (f : Flash) (pc : Nat) : Except Fault (Fetched × Flash) := do
  let index ← f.wordIndex pc
  match f.slot index with
  | .ready instr => return (.plain instr, f)
  | .attached attachment =>
    if attachment.breakpoint && !attachment.fired then
      return (.paused, f.setSlot index (.attached { attachment with fired := true }))
    else
      return (.probed attachment.instr attachment.probes,
        f.setSlot index (.attached { attachment with fired := false }))
  | .empty =>
    let instr := f.decodeAt index
    return (.plain instr, f.setSlot index (.ready instr))

/-- What is attached at a word, wrapping its instruction if nothing is yet. -/
def attachment (f : Flash) (index : Nat) : Attachment :=
  match f.slot index with
  | .attached attachment => attachment
  | .ready instr => ⟨instr, [], false, false⟩
  | .empty => ⟨f.decodeAt index, [], false, false⟩

/-- Unwrap a slot that has nothing attached anymore. -/
def settle (attachment : Attachment) : Slot :=
  if attachment.probes.isEmpty && !attachment.breakpoint then
    .ready attachment.instr
  else
    .attached attachment

def insertProbe (f : Flash) (address : Nat) (probe : Handle) : Except Fault Flash := do
  let index ← f.wordIndex address
  let attachment := f.attachment index
  return f.setSlot index
    (.attached { attachment with probes := HandleList.insert attachment.probes probe })

def removeProbe (f : Flash) (address : Nat) (probe : Handle) : Flash × Bool :=
  match f.wordIndex address with
  | .error _ => (f, false)
  | .ok index =>
    match f.slot index with
    | .attached attachment =>
      let (probes, found) := HandleList.remove attachment.probes probe
      (f.setSlot index (settle { attachment with probes }), found)
    | _ => (f, false)

def insertBreakpoint (f : Flash) (address : Nat) : Except Fault Flash := do
  let index ← f.wordIndex address
  return f.setSlot index
    (.attached { f.attachment index with breakpoint := true, fired := false })

def removeBreakpoint (f : Flash) (address : Nat) : Flash × Bool :=
  match f.wordIndex address with
  | .error _ => (f, false)
  | .ok index =>
    match f.slot index with
    | .attached attachment =>
      (f.setSlot index (settle { attachment with breakpoint := false, fired := false }),
        attachment.breakpoint)
    | _ => (f, false)

def hasBreakpoint (f : Flash) (address : Nat) : Bool :=
  match f.wordIndex address with
  | .error _ => false
  | .ok index =>
    match f.slot index with
    | .attached attachment => attachment.breakpoint
    | _ => false

/-- Number of probes on the instruction at a byte address. -/
def probeCount (f : Flash) (address : Nat) : Nat :=
  match f.wordIndex address with
  | .error _ => 0
  | .ok index =>
    match f.slot index with
    | .attached attachment => attachment.probes.length
    | _ => 0

def rearmSlot : Slot → Slot
  | .attached attachment => .attached { attachment with fired := false }
  | slot => slot

/-- Forget that any breakpoint has fired. -/
def rearm (f : Flash) : Flash :=
  { f with slots := f.slots.map rearmSlot }

/-- Whether something is attached to the instruction of a slot. -/
def slotAttached : Slot → Bool
  | .attached _ => true
  | _ => false

def describe (f : Flash) : String :=
  Text.openRecord "CodeSegment"
    [("len", Text.decimal f.size),
      ("probed", Text.decimal (f.slots.countP slotAttached))]

end Flash

end Avr

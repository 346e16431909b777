import Avr.Bench.World

/-!
Contract: trials of a segment by itself.

Owns:
- the operations on a segment, with what each enters into the journal.
-/

namespace Avr.Bench

open Avr.Memory

inductive SegmentOp where
  | read (address : Nat)
  | write (address : Nat) (value : UInt8)
  | get (address : Nat)
  | set (address : Nat) (value : UInt8)
  | load (address : Nat) (values : List UInt8)
  | dump
  | fill (value : UInt8)
  | info
  | describe
  | reporter (who : String) (value : Option UInt8)
  | watch (address : Nat) (who : String)
  | removeWatch (address : Nat) (who : String)
  | watchCount (address : Nat)
deriving Repr

/-- A segment among the named objects of a bench. -/
structure SegmentTrial where
  segment : Segment
  world : World

namespace SegmentTrial

/-- Take over a changed segment, or answer why there is none. -/
def update (trial : SegmentTrial) : Except Fault Segment → Answer × SegmentTrial
  | .ok segment => (.done, { trial with segment })
  | .error fault => (.fault fault, trial)

/-- Perform an operation and answer it. -/
def perform (trial : SegmentTrial) : SegmentOp → Answer × SegmentTrial
  | .read address =>
    let (value, world) := trial.segment.read World.reporting address trial.world
    (.byte value, { trial with world })
  | .write address value =>
    let (segment, world) := trial.segment.write World.reporting address value trial.world
    (.nothing, ⟨segment, world⟩)
  | .get address => (.ofByte (trial.segment.get address), trial)
  | .set address value => trial.update (trial.segment.set address value)
  | .load address values => trial.update (trial.segment.load address values)
  | .dump => (.text (Text.hexBytes trial.segment.bytes.toList), trial)
  | .fill value => (.nothing, { trial with segment := trial.segment.fill value })
  | .info =>
    (.list [.text trial.segment.name, .number trial.segment.size,
      .truth (trial.segment.size = 0), .byte trial.segment.blank], trial)
  | .describe => (.text trial.segment.describe, trial)
  | .reporter who value =>
    let (world, h) := trial.world.addObject (.reporter who value)
    (.nothing, ⟨{ trial.segment with reporter := some h }, world⟩)
  | .watch address who =>
    let (world, h) := trial.world.recorder who
    { trial with world }.update (trial.segment.insertWatch address h)
  | .removeWatch address who =>
    let (world, h) := trial.world.recorder who
    let (segment, found) := trial.segment.removeWatch address h
    (.truth found, ⟨segment, world⟩)
  | .watchCount address =>
    (.optional ((trial.segment.watchesAt address).map fun watches => .number watches.length),
      trial)

/-- Perform operations in order: the answer of each with the journal entries it made. -/
def performAll (trial : SegmentTrial) : List SegmentOp → List (Answer × List Entry)
  | [] => []
  | op :: rest =>
    let (answer, trial) := trial.perform op
    let (entries, world) := trial.world.takeJournal
    (answer, entries) :: { trial with world }.performAll rest

end SegmentTrial

end Avr.Bench

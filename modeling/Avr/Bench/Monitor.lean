import Avr.Handle
import Avr.Text.Layout

/-!
Contract: ready-made probes of instructions.

Owns:
- counting of instructions and of taken branches;
- following a sequence from its entry to its exit;
- expiry after a number of instructions.

Does not own: where the probes are attached.
-/

namespace Avr.Bench

inductive Monitor where
  | counter (count : Nat)
  /-- Counts whether execution went on at the following instruction. -/
  | branch (taken notTaken : Nat)
  /-- Passes calls on to another probe between two instructions; `nesting` counts the entries that
  have not been left yet. -/
  | sequence (inner : Handle) (entry exit nesting : Nat)
  /-- Expires after `limit` instructions. -/
  | instructionLimit (limit seen : Nat)
deriving DecidableEq, Repr

namespace Monitor

/-- Before the instruction at an address. -/
def before (monitor : Monitor) (address : Nat) : Monitor :=
  match monitor with
  | counter count => counter (count + 1)
  | sequence inner entry exit nesting =>
      sequence inner entry exit (if address = entry then nesting + 1 else nesting)
  | other => other

/-- After the instruction at an address; `fellThrough` tells whether the next one follows it. -/
def after (monitor : Monitor) (address : Nat) (fellThrough : Bool) : Monitor :=
  match monitor with
  | branch taken notTaken =>
      if fellThrough then branch taken (notTaken + 1) else branch (taken + 1) notTaken
  | sequence inner entry exit nesting =>
      sequence inner entry exit (if address = exit then nesting - 1 else nesting)
  | instructionLimit limit seen => instructionLimit limit (seen + 1)
  | other => other

/-- The probe that calls are passed on to at the moment. -/
def inner? : Monitor → Option Handle
  | sequence inner _ _ nesting => if 0 < nesting then some inner else none
  | _ => none

/-- The number of instructions seen, if that is exactly the limit. -/
def expired? : Monitor → Option Nat
  | instructionLimit limit seen => if seen = limit then some seen else none
  | _ => none

def reset : Monitor → Monitor
  | counter _ => counter 0
  | sequence inner entry exit _ => sequence inner entry exit 0
  | other => other

def figures : Monitor → List Nat
  | counter count => [count]
  | branch taken notTaken => [taken, notTaken]
  | sequence _ _ _ nesting => [nesting]
  | instructionLimit _ seen => [seen]

def describe : Monitor → String
  | counter count => Text.record "Counter" [("count", Text.decimal count)]
  | branch taken notTaken =>
      Text.record "BranchCounter"
        [("taken", Text.decimal taken), ("not_taken", Text.decimal notTaken)]
  | sequence _ entry exit nesting =>
      Text.openRecord "SequenceProbe"
        [("entry", Text.hexMarked 5 entry),
          ("exit", Text.hexMarked 5 exit),
          ("nesting", Text.decimal nesting)]
  | instructionLimit limit seen =>
      Text.record "InstructionCountTimeout"
        [("limit", Text.decimal limit), ("seen", Text.decimal seen)]

end Monitor

end Avr.Bench

import Avr.Bench.World

/-!
Contract: what all operations of a bench share.

Owns:
- changes of the world of a machine;
- operations that may fail, and operations on registers that may not exist.
-/

namespace Avr.Bench

open Avr.Isa

/-- A computation on a machine among the named objects of a bench. -/
abbrev Play := Action World

/-- A number of steps, or of batches of events, that nothing reaches. -/
def endless : Nat := 0x4000000000000000

def withWorld {α : Type} (change : World → World × α) : Play α :=
  modifyGet fun m =>
    let (world, result) := change m.world
    (result, { m with world })

def modifyWorld (change : World → World) : Play Unit :=
  modify fun m => { m with world := change m.world }

def silently (change : Machine World → Machine World) : Play Answer := do
  modify change
  return .nothing

def inspect (look : Machine World → Answer) : Play Answer := do
  return look (← get)

def outcome (attempted : Attempt World Unit) : Play Answer := do
  return .ofAttempt (← attempted.run)

/-- Answer whether something was found while the machine was changed. -/
def found (change : Machine World → Machine World × Bool) : Play Answer := do
  return .truth (← Machine.answer change)

def withRegister (number : Nat) (use : Reg → Play Answer) : Play Answer :=
  match Reg.ofNat? number with
  | none => return .badRegister
  | some r => use r

/-- The part of an array from an address on, at most `count` long. -/
def excerpt (bytes : Array UInt8) (address count : Nat) : List UInt8 :=
  (bytes.extract address (address + count)).toList

end Avr.Bench

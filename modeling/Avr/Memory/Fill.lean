import Avr.Memory.Random
import Avr.Text.Layout

/-!
Contract: the contents of SRAM after power-on and reset.

Owns:
- the three ways to fill SRAM.

The contents are undefined on hardware, so a program must not depend on them; an `unseeded` fill
stands for that, and which bytes are drawn is a parameter.
-/

namespace Avr.Memory

inductive Fill where
  /-- Bytes drawn from outside, then zeros. -/
  | unseeded (drawn : List UInt8 := [])
  | seeded (seed : UInt64)
  | known (value : UInt8)
deriving DecidableEq, Repr

namespace Fill

def isUnseeded : Fill → Bool
  | .unseeded _ => true
  | .seeded _ | .known _ => false

def bytes (count : Nat) : Fill → List UInt8
  | .unseeded drawn => (drawn ++ List.replicate count 0).take count
  | .seeded seed => Random.bytes seed count
  | .known value => List.replicate count value

theorem length_bytes (count : Nat) (fill : Fill) : (fill.bytes count).length = count := by
  cases fill with
  | unseeded _ =>
      rw [bytes, List.length_take, List.length_append, List.length_replicate]
      exact Nat.min_eq_left (Nat.le_add_left _ _)
  | known _ => exact List.length_replicate
  | seeded seed => exact Random.length_bytes seed count

def describe : Fill → String
  | .unseeded _ => "Unseeded"
  | .seeded seed => Text.record "Seeded" [("seed", Text.decimal seed.toNat)]
  | .known value => Text.record "Known" [("value", Text.decimal value.toNat)]

end Fill

end Avr.Memory

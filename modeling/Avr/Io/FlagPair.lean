import Avr.Status

/-!
Contract: a flag register and a mask register that drive up to eight interrupt vectors.

Owns:
- which bit of the pair belongs to which vector;
- which flags stay set when their interrupt is dispatched.

A flag bit posts its vector and the mask bit of the same number enables it.
-/

namespace Avr.Io

structure FlagPair where
  flagRegister : Nat
  maskRegister : Nat
  /-- The vector of each of the eight bits. -/
  vectors : List (Option Nat)
  /-- Bits whose flag is kept when the interrupt is dispatched. -/
  sticky : UInt8
deriving DecidableEq, Repr

namespace FlagPair

/-- A pair without vectors. -/
def new (flagRegister maskRegister : Nat) : FlagPair where
  flagRegister := flagRegister
  maskRegister := maskRegister
  vectors := List.replicate 8 none
  sticky := 0

/-- Give a bit below eight its vector; other bits are ignored. -/
def assign (p : FlagPair) (bit vector : Nat) (sticky : Bool) : FlagPair :=
  if bit < 8 then
    { p with
      vectors := p.vectors.set bit (some vector)
      sticky := withBit p.sticky bit sticky }
  else
    p

/-- Bits that have a vector, in order, each with its vector. -/
def mapped (p : FlagPair) : List (Nat × Nat) :=
  p.vectors.zipIdx.filterMap fun (vector, bit) => vector.map fun v => (bit, v)

/-- Mapped bits in which two register values differ. -/
def changed (p : FlagPair) (old new : UInt8) : List (Nat × Nat) :=
  p.mapped.filter fun (bit, _) => byteBit old bit != byteBit new bit

def isSticky (p : FlagPair) (bit : Nat) : Bool :=
  byteBit p.sticky bit

def describe (p : FlagPair) : String :=
  Text.record "InterruptFlags"
    [("flag_reg", Text.decimal p.flagRegister),
      ("mask_reg", Text.decimal p.maskRegister),
      ("vectors", Text.bracketed (p.vectors.map fun vector =>
        Text.optional (vector.map Text.decimal))),
      ("sticky", Text.decimal p.sticky.toNat)]

end FlagPair

end Avr.Io

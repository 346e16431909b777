import Avr.Text.Digits

/-!
Contract: the general purpose registers and the pointers made of them.

Owns:
- register numbers and the three pointer pairs;
- how a pointer is used and updated by a load or store.
-/

namespace Avr.Isa

/-- Number of general purpose registers. -/
def registerCount : Nat := 32

/-- A general purpose register. -/
abbrev Reg := Fin 32

/-- There is a register zero, so registers can be written as numerals. -/
instance regCountNeZero : @NeZero Nat Zero.ofOfNat0 32 := ⟨by decide⟩

namespace Reg

/-- The register with the given number, if there is one. -/
def ofNat? (number : Nat) : Option Reg :=
  if inRange : number < 32 then some ⟨number, inRange⟩ else none

@[simp] theorem ofNat?_val (r : Reg) : ofNat? r.val = some r := by
  simp [ofNat?]

def text (r : Reg) : String :=
  "R" ++ Text.decimal r.val

end Reg

/-- A pointer register: `X` is `R27:R26`, `Y` is `R29:R28` and `Z` is `R31:R30`. -/
inductive Pointer where
  | x
  | y
  | z
deriving DecidableEq, Repr

namespace Pointer

/-- Low register of the pair. -/
def low : Pointer → Reg
  | .x => 26
  | .y => 28
  | .z => 30

def text : Pointer → String
  | .x => "X"
  | .y => "Y"
  | .z => "Z"

end Pointer

/-- How a load or store uses its pointer. -/
inductive PointerMode where
  /-- Access at the pointer plus a displacement. -/
  | displaced (offset : UInt8)
  | postIncrement
  /-- Decrement the pointer, then access at it. -/
  | preDecrement
deriving DecidableEq, Repr

/-- Loads and stores with a nonzero displacement have a mnemonic of their own. -/
def PointerMode.isDisplaced : PointerMode → Bool
  | .displaced offset => offset != 0
  | _ => false

end Avr.Isa

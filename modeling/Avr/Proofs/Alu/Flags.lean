import Avr.Alu

/-!
Contract: the flags that each operation on bytes and words alters.

Owns:
- the flags other than `I` by name, and the groups of them that operations alter together;
- one law per operation: `I` and the flags outside of its group stay, and a new sign is `N`
  exclusive or `V`.

Does not own: what the altered flags say, which is a matter of the results.
-/

namespace Avr

/-- The flags of the status register that describe data, so all but `I`. -/
inductive Flag where
  | t | h | s | v | n | z | c
deriving DecidableEq, Repr

namespace Flag

/-- Flags of additions, subtractions and comparisons. -/
def arithmetic : List Flag := [.h, .s, .v, .n, .z, .c]

/-- Flags of bitwise operations, and of counting up and down by one. -/
def logical : List Flag := [.s, .v, .n, .z]

/-- Flags of shifts, of the ones' complement and of the word operations. -/
def shifting : List Flag := [.s, .v, .n, .z, .c]

/-- Flags of multiplications. -/
def multiplying : List Flag := [.z, .c]

end Flag

namespace Status

def get (status : Status) : Flag → Bool
  | .t => status.t
  | .h => status.h
  | .s => status.s
  | .v => status.v
  | .n => status.n
  | .z => status.z
  | .c => status.c

/-- `I` and flags other than the given ones stay. If the sign is given, it is `N` exclusive or
`V`. -/
structure Alters (flags : List Flag) (before after : Status) : Prop where
  interrupts : after.i = before.i
  kept : ∀ flag, flag ∉ flags → after.get flag = before.get flag
  sign : Flag.s ∈ flags → after.s = (after.n ^^ after.v)

namespace Alters

variable {before after : Status}

theorem none (status : Status) : status.Alters [] status where
  interrupts := rfl
  kept _ _ := rfl
  sign altered := absurd altered List.not_mem_nil

theorem arithmetic (i : after.i = before.i) (t : after.t = before.t)
    (sign : after.s = (after.n ^^ after.v)) : before.Alters Flag.arithmetic after where
  interrupts := i
  kept flag apart := by
    cases flag with
    | t => exact t
    | h | s | v | n | z | c => exact absurd (by decide) apart
  sign _ := sign

theorem shifting (i : after.i = before.i) (t : after.t = before.t) (h : after.h = before.h)
    (sign : after.s = (after.n ^^ after.v)) : before.Alters Flag.shifting after where
  interrupts := i
  kept flag apart := by
    cases flag with
    | t => exact t
    | h => exact h
    | s | v | n | z | c => exact absurd (by decide) apart
  sign _ := sign

end Alters

theorem alters_t (status : Status) (t : Bool) : status.Alters [.t] { status with t } where
  interrupts := rfl
  kept flag apart := by
    cases flag with
    | t => exact absurd (List.mem_singleton_self _) apart
    | h | s | v | n | z | c => rfl
  sign altered := absurd altered (by decide)

end Status

namespace Alu

variable (status : Status)

theorem alters_add (a b : UInt8) (carry : Bool) :
    status.Alters Flag.arithmetic (add a b carry status).2 :=
  .arithmetic rfl rfl rfl

theorem alters_subtract (chain : Bool) (a b : UInt8) :
    status.Alters Flag.arithmetic (subtract chain a b status).2 :=
  .arithmetic rfl rfl rfl

/-- The common end of all operations that leave `H` and `C` alone. -/
theorem alters_resultFlags (v : Bool) (result : UInt8) :
    status.Alters Flag.logical (resultFlags { status with v } result) where
  interrupts := rfl
  kept flag apart := by
    cases flag with
    | t | h | c => rfl
    | s | v | n | z => exact absurd (by decide) apart
  sign _ := rfl

theorem alters_complement (a : UInt8) :
    status.Alters Flag.shifting (complement a status).2 :=
  .shifting rfl rfl rfl rfl

theorem alters_shiftRight (a : UInt8) (top : Bool) :
    status.Alters Flag.shifting (shiftRight a top status).2 :=
  .shifting rfl rfl rfl rfl

theorem alters_addWord (a : UInt16) (k : UInt8) :
    status.Alters Flag.shifting (addWord a k status).2 :=
  .shifting rfl rfl rfl rfl

theorem alters_subtractWord (a : UInt16) (k : UInt8) :
    status.Alters Flag.shifting (subtractWord a k status).2 :=
  .shifting rfl rfl rfl rfl

theorem alters_multiply (a b : Int) (fractional : Bool) :
    status.Alters Flag.multiplying (multiply a b fractional status).2 where
  interrupts := rfl
  kept flag apart := by
    cases flag with
    | t | h | s | v | n => rfl
    | z | c => exact absurd (by decide) apart
  sign altered := absurd altered (by decide)

end Alu

end Avr

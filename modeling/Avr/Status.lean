import Avr.Text.Layout

/-!
Contract: the status register.

Owns:
- single bits of a byte, and those of its bitwise operations;
- the eight flags, and their byte with `I` in bit 7 down to `C` in bit 0;
- setting, clearing and testing flags by mask or by bit number.
-/

namespace Avr

def byteBit (value : UInt8) (n : Nat) : Bool :=
  value.toNat.testBit n

theorem byteBit_and (x y : UInt8) (n : Nat) : byteBit (x &&& y) n = (byteBit x n && byteBit y n) :=
  Nat.testBit_and _ _ _

theorem byteBit_or (x y : UInt8) (n : Nat) : byteBit (x ||| y) n = (byteBit x n || byteBit y n) :=
  Nat.testBit_or _ _ _

theorem byteBit_not (x : UInt8) {n : Nat} (below : n < 8) : byteBit (~~~x) n = !byteBit x n := by
  have bits : ∀ value : UInt8, byteBit value n = value.toBitVec.getLsbD n := fun _ => rfl
  rw [bits, bits, UInt8.toBitVec_not, BitVec.getLsbD_not, decide_eq_true below, Bool.true_and]

/-- The byte with bit `n`, below eight, set or cleared. -/
def withBit (value : UInt8) (n : Nat) (set : Bool) : UInt8 :=
  if set then value ||| (1 <<< UInt8.ofNat n) else value &&& ~~~(1 <<< UInt8.ofNat n)

structure Status where
  i : Bool
  t : Bool
  h : Bool
  s : Bool
  v : Bool
  n : Bool
  z : Bool
  c : Bool
deriving DecidableEq, Repr

namespace Status

def clear : Status := ⟨false, false, false, false, false, false, false, false⟩

def ofByte (value : UInt8) : Status where
  i := byteBit value 7
  t := byteBit value 6
  h := byteBit value 5
  s := byteBit value 4
  v := byteBit value 3
  n := byteBit value 2
  z := byteBit value 1
  c := byteBit value 0

/-- The flags, the one of bit 0 first. -/
def flags (status : Status) : List Bool :=
  [status.c, status.z, status.n, status.v, status.s, status.h, status.t, status.i]

def byte (status : Status) : UInt8 :=
  UInt8.ofNat (status.flags.foldr (fun flag rest => flag.toNat + 2 * rest) 0)

@[simp] theorem ofByte_byte (status : Status) : ofByte status.byte = status := by
  obtain ⟨i, t, h, s, v, n, z, c⟩ := status
  cases i <;> cases t <;> cases h <;> cases s <;> cases v <;> cases n <;> cases z <;> cases c <;>
    rfl

@[simp] theorem byte_ofByte (value : UInt8) : (ofByte value).byte = value := by
  have all : ∀ k : Fin 256, (ofByte (UInt8.ofNat k.val)).byte = UInt8.ofNat k.val := by
    decide +kernel
  have one := all ⟨value.toNat, value.toNat_lt⟩
  simpa using one

def all (status : Status) (mask : UInt8) : Bool :=
  status.byte &&& mask = mask

def assign (status : Status) (mask : UInt8) (set : Bool) : Status :=
  ofByte (if set then status.byte ||| mask else status.byte &&& ~~~mask)

/-- The flag with the given bit number, counted modulo eight. -/
def bit (status : Status) (number : Nat) : Bool :=
  byteBit status.byte (number % 8)

def describe (status : Status) : String :=
  let letters := ("CZNVSHTI".toList.zip status.flags).filter fun (_, flag) => flag
  "Sreg(" ++ String.ofList (letters.map fun (letter, _) => letter).reverse ++ ")"

end Status

end Avr

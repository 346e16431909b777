import Avr.Isa.Decoding
import Mathlib.Algebra.Group.Nat.Defs

/-!
Contract: the operand fields of machine words.

Owns:
- the fields of a word in terms of quotients and remainders;
- placing the fields that were read from a word gives the bits they came from;
- placed operands stay inside their field, so the bits around it are those of the base.
-/

namespace Avr.Isa

theorem bits_eq (w low width : Nat) : bits w low width = w / 2 ^ low % 2 ^ width := by
  rw [bits, Nat.shiftRight_eq_div_pow, Nat.one_shiftLeft]

theorem bits_lt (w low width : Nat) : bits w low width < 2 ^ width := by
  rw [bits_eq]
  exact Nat.mod_lt _ (Nat.two_pow_pos width)

theorem regOf_val (value : Nat) : (regOf value).val = value % 32 := rfl

theorem fieldRd_val (w : Nat) : (fieldRd w).val = w / 16 % 32 := by
  simp only [fieldRd, regOf_val, bits_eq]
  omega

theorem fieldRr_val (w : Nat) : (fieldRr w).val = w / 512 % 2 * 16 + w % 16 := by
  simp only [fieldRr, regOf_val, bits_eq]
  omega

theorem fieldHigh_val (w : Nat) : (fieldHigh w).val = 16 + w / 16 % 16 := by
  simp only [fieldHigh, regOf_val, bits_eq]
  omega

theorem fieldByte_toNat (w : Nat) : (fieldByte w).toNat = w / 256 % 16 * 16 + w % 16 := by
  simp only [fieldByte, UInt8.toNat_ofNat', bits_eq]
  omega

/-! ### Placing what was read -/

theorem placeTwo_field (w : Nat) : placeTwo (fieldRd w) (fieldRr w) = w % 1024 := by
  simp only [placeTwo, fieldRd_val, fieldRr_val]
  omega

theorem placeByte_field (w : Nat) : placeByte (fieldHigh w) (fieldByte w) = w % 4096 := by
  simp only [placeByte, fieldHigh_val, fieldByte_toNat]
  omega

theorem placeOne_field (w : Nat) : placeOne (fieldRd w) = w / 16 % 32 * 16 := by
  rw [placeOne, fieldRd_val]

theorem placePair_field (w : Nat) :
    placePair (regOf (24 + bits w 4 2 * 2)) (UInt8.ofNat (bits w 6 2 * 16 + bits w 0 4)) =
      w % 256 := by
  simp only [placePair, regOf_val, UInt8.toNat_ofNat', bits_eq]
  omega

theorem placeIo_field (w : Nat) :
    placeIo (fieldRd w) (UInt8.ofNat (bits w 9 2 * 16 + bits w 0 4)) = w % 2048 := by
  simp only [placeIo, fieldRd_val, UInt8.toNat_ofNat', bits_eq]
  omega

theorem placeIoBit_field (w : Nat) :
    placeIoBit (UInt8.ofNat (bits w 3 5)) (UInt8.ofNat (bits w 0 3)) = w % 256 := by
  simp only [placeIoBit, UInt8.toNat_ofNat', bits_eq]
  omega

/-- The three parts of a displacement do not overlap. -/
theorem placeOffset_parts {high middle low : Nat} (highBit : high < 2) (middleBits : middle < 4)
    (lowBits : low < 8) :
    placeOffset (UInt8.ofNat (high * 32 + middle * 8 + low)) =
      high * 8192 + middle * 1024 + low := by
  simp only [placeOffset, UInt8.toNat_ofNat']
  omega

theorem placeOffset_field (w : Nat) :
    placeOffset (UInt8.ofNat (bits w 13 1 * 32 + bits w 10 2 * 8 + bits w 0 3)) =
      w / 8192 % 2 * 8192 + w / 1024 % 4 * 1024 + w % 8 := by
  rw [placeOffset_parts (bits_lt w 13 1) (bits_lt w 10 2) (bits_lt w 0 3)]
  simp only [bits_eq]
  omega

theorem bitNumber_field (w : Nat) : (UInt8.ofNat (bits w 0 3)).toNat % 8 = w % 8 := by
  simp only [UInt8.toNat_ofNat', bits_eq]
  omega

/-- An offset in two's complement keeps its bits. -/
theorem signExtend_seven (value : Nat) :
    (signExtend 7 (value % 128) % 128).toNat = value % 128 := by
  simp only [signExtend]
  split <;> omega

theorem signExtend_twelve (value : Nat) :
    (signExtend 12 (value % 4096) % 4096).toNat = value % 4096 := by
  simp only [signExtend]
  split <;> omega

/-! ### Operands stay inside their field -/

theorem placeTwo_lt (rd rr : Reg) : placeTwo rd rr < 1024 := by
  simp only [placeTwo]
  omega

theorem placeByte_lt (rd : Reg) (k : UInt8) : placeByte rd k < 4096 := by
  have byte := k.toNat_lt
  simp only [placeByte]
  omega

theorem placePair_lt (rd : Reg) (k : UInt8) : placePair rd k < 256 := by
  simp only [placePair]
  omega

theorem placeIo_lt (r : Reg) (a : UInt8) : placeIo r a < 2048 := by
  simp only [placeIo]
  omega

theorem placeIoBit_lt (a b : UInt8) : placeIoBit a b < 256 := by
  simp only [placeIoBit]
  omega

/-- The bits above the operands are those of a base that leaves the operands free. -/
theorem bits_above {base operands free low width : Nat} (aligned : base % 2 ^ free = 0)
    (small : operands < 2 ^ free) (above : free ≤ low) :
    bits (base + operands) low width = bits base low width := by
  obtain ⟨high, rfl⟩ := Nat.dvd_of_mod_eq_zero aligned
  obtain ⟨distance, rfl⟩ := Nat.exists_eq_add_of_le above
  have positive := Nat.two_pow_pos free
  rw [bits_eq, bits_eq, Nat.pow_add, ← Nat.div_div_eq_div_mul, ← Nat.div_div_eq_div_mul,
    Nat.mul_add_div positive, Nat.div_eq_of_lt small, Nat.add_zero, Nat.mul_div_cancel_left _ positive]

/-- A register in the middle of a word changes no field beside it. -/
theorem bits_below_one (base : Nat) (r : Reg) {width : Nat} (below : width ≤ 4) :
    bits (base + placeOne r) 0 width = bits base 0 width := by
  obtain ⟨rest, whole⟩ := Nat.exists_eq_add_of_le below
  have split : placeOne r = 2 ^ width * (2 ^ rest * r.val) := by
    rw [placeOne, ← Nat.mul_assoc, ← Nat.pow_add, ← whole, Nat.mul_comm]
  simp only [bits_eq, split, Nat.pow_zero, Nat.div_one, Nat.add_mul_mod_self_left]

end Avr.Isa

import Avr.Isa.Decoding
import Avr.Status

/-!
Contract: the flag numbers and the IO addresses of decoded instructions fit their fields.

Owns:
- the bound on flag numbers of decoded instructions, and on the IO addresses that they write;
- the fact that flags below the seventh are not `I`.
-/

namespace Avr

namespace Isa

/-- A flag number has three bits. -/
def Instr.FlagInRange : Instr → Prop
  | .flag _ s => s.toNat < 8
  | _ => True

/-- Moreover, the address of an IO register that is written has six bits, or five if one bit of the
register is. -/
def Instr.FieldsInRange : Instr → Prop
  | .flag _ s => s.toNat < 8
  | .output a _ => a.toNat < 64
  | .ioBit _ a _ => a.toNat < 32
  | _ => True

theorem Instr.FieldsInRange.flag {i : Instr} (fields : i.FieldsInRange) : i.FlagInRange := by
  cases i with
  | flag set s => exact fields
  | _ => trivial

theorem toNat_ofNat_lt {value bound : Nat} (small : value < bound) :
    (UInt8.ofNat value).toNat < bound := by
  rw [UInt8.toNat_ofNat']
  exact Nat.lt_of_le_of_lt (Nat.mod_le _ _) small

theorem fieldsInRange_decodeTwo (w : Nat) : (decodeTwo w).FieldsInRange := by
  unfold decodeTwo
  repeat' split
  all_goals trivial

theorem fieldsInRange_decodeDisplaced (w : Nat) : (decodeDisplaced w).FieldsInRange := by
  unfold decodeDisplaced
  repeat' split
  all_goals trivial

theorem fieldsInRange_decodeLoad (w : Nat) (next : UInt16) : (decodeLoad w next).FieldsInRange := by
  unfold decodeLoad
  split <;> trivial

theorem fieldsInRange_decodeStore (w : Nat) (next : UInt16) :
    (decodeStore w next).FieldsInRange := by
  unfold decodeStore
  split <;> trivial

/-- The only words with flag numbers. -/
theorem fieldsInRange_decodeControl (w : Nat) : (decodeControl w).FieldsInRange := by
  have number : (UInt8.ofNat (bits w 4 3)).toNat < 8 :=
    toNat_ofNat_lt (Nat.mod_lt _ (by decide))
  unfold decodeControl
  split
  · exact number
  · exact number
  · split <;> trivial

theorem fieldsInRange_decodeIndirect (w : Nat) : (decodeIndirect w).FieldsInRange := by
  unfold decodeIndirect
  split <;> trivial

theorem fieldsInRange_decodeOne (w : Nat) (next : UInt16) : (decodeOne w next).FieldsInRange := by
  unfold decodeOne
  split
  case h_8 => exact fieldsInRange_decodeControl w
  case h_9 => exact fieldsInRange_decodeIndirect w
  all_goals trivial

theorem fieldsInRange_decodeIrregular (w : Nat) (next : UInt16) :
    (decodeIrregular w next).FieldsInRange := by
  have address : (UInt8.ofNat (bits w 3 5)).toNat < 32 :=
    toNat_ofNat_lt (Nat.mod_lt _ (by decide))
  unfold decodeIrregular
  split
  case h_1 => exact fieldsInRange_decodeLoad w next
  case h_2 => exact fieldsInRange_decodeStore w next
  case h_3 => exact fieldsInRange_decodeOne w next
  case h_4 => split <;> trivial
  case h_5 | h_6 => split <;> exact address
  case h_7 => trivial

theorem fieldsInRange_decodeIo (w : Nat) : (decodeIo w).FieldsInRange := by
  have high : bits w 9 2 < 4 := Nat.mod_lt _ (by decide)
  have low : bits w 0 4 < 16 := Nat.mod_lt _ (by decide)
  have address : (UInt8.ofNat (bits w 9 2 * 16 + bits w 0 4)).toNat < 64 :=
    toNat_ofNat_lt (by omega)
  unfold decodeIo
  split
  · trivial
  · exact address

theorem fieldsInRange_decodeBits (w : Nat) : (decodeBits w).FieldsInRange := by
  unfold decodeBits
  repeat' split
  all_goals trivial

theorem fieldsInRange_decode (word next : UInt16) : (Instr.decode word next).FieldsInRange := by
  unfold Instr.decode
  dsimp only
  split
  case h_1 | h_2 | h_3 => exact fieldsInRange_decodeTwo _
  case h_9 | h_10 => exact fieldsInRange_decodeDisplaced _
  case h_11 => exact fieldsInRange_decodeIrregular _ next
  case h_12 => exact fieldsInRange_decodeIo _
  case h_16 => exact fieldsInRange_decodeBits _
  all_goals trivial

theorem flagInRange_decode (word next : UInt16) : (Instr.decode word next).FlagInRange :=
  (fieldsInRange_decode word next).flag

end Isa

namespace Status

/-- Setting or clearing one of the lower flags leaves `I` alone. -/
theorem assign_i (status : Status) {s : UInt8} (lower : s.toNat < 7) (set : Bool) :
    (status.assign (1 <<< s) set).i = status.i := by
  have masks : ∀ k : Fin 7, byteBit (1 <<< UInt8.ofNat k.val) 7 = false ∧
      byteBit (~~~(1 <<< UInt8.ofNat k.val)) 7 = true := by decide
  obtain ⟨below, above⟩ := masks ⟨s.toNat, lower⟩
  simp only [UInt8.ofNat_toNat, byteBit] at below above
  have stored : byteBit status.byte 7 = status.i := congrArg Status.i status.ofByte_byte
  rw [← stored, assign]
  cases set with
  | true =>
      change byteBit (status.byte ||| 1 <<< s) 7 = byteBit status.byte 7
      simp only [byteBit, UInt8.toNat_or, Nat.testBit_or, below, Bool.or_false]
  | false =>
      change byteBit (status.byte &&& ~~~(1 <<< s)) 7 = byteBit status.byte 7
      simp only [byteBit, UInt8.toNat_and, Nat.testBit_and, above, Bool.and_true]

end Status

end Avr

import Avr.Proofs.Isa.Fields

/-!
Contract: encoding and decoding invert each other.

Owns:
- the words of a decoded instruction are those that it was decoded from;
- an encoded instruction decodes to one of the same variant, whatever its operands;
- the instructions that survive encoding are those that decoding can produce.

Two words have a second spelling: a read of program memory into `R0` without increment.
-/

namespace Avr.Isa

open Instr

/-! ### The word of a decoded instruction -/

theorem firstWord_decodeTwo {w : Nat} (block : w < 0x3000) : (decodeTwo w).firstWord = w := by
  unfold decodeTwo
  simp only [bits_eq]
  split
  case h_1 =>
    split
    · split
      · simp only [firstWord, ControlOp.word]; omega
      · simp only [firstWord, UInt16.toNat_ofNat']; omega
    · simp only [firstWord, BinaryOp.word, regOf_val]; omega
    · simp only [firstWord, BinaryOp.word, fieldHigh_val, regOf_val]; omega
    · simp only [imp_false] at *
      split <;> (simp only [imp_false, firstWord, BinaryOp.word, regOf_val] at *; omega)
  all_goals
    simp only [imp_false, firstWord, BinaryOp.word, placeTwo_field] at *
    omega

theorem firstWord_decodeDisplaced {w : Nat} (block : w / 4096 = 0x8 ∨ w / 4096 = 0xA) :
    (decodeDisplaced w).firstWord = w := by
  unfold decodeDisplaced
  split <;> split <;>
    (simp only [firstWord, pointerWord, placeOffset_field, placeOne_field]
     simp only [bits_eq] at *
     omega)

/-- Reads of program memory into `R0` without increment have a word of their own. -/
theorem firstWord_loadProgram {w : Nat} (extended increment : Bool)
    (regular : increment = true ∨ fieldRd w ≠ 0) :
    (loadProgram extended (fieldRd w) increment).firstWord =
      (if extended then 0x9006 else 0x9004) + (if increment then 1 else 0) +
        w / 16 % 32 * 16 := by
  have other : ¬ (fieldRd w = 0 ∧ increment = false) := by
    rintro ⟨zero, still⟩
    rcases regular with moves | nonzero
    · simp [still] at moves
    · exact nonzero zero
  rw [firstWord, if_neg other, placeOne_field]

theorem fieldRd_ne_zero {w : Nat} (low : Nat) (block : w / 512 = 0x48) (row : w % 16 = low)
    (regular : w ≠ 0x9000 + low) : fieldRd w ≠ 0 := by
  intro zero
  have value := fieldRd_val w
  rw [zero] at value
  apply regular
  simp only [Fin.val_zero] at value
  omega

theorem firstWord_decodeLoad {w : Nat} (next : UInt16) (block : w / 512 = 0x48)
    (regular : w ≠ 0x9004 ∧ w ≠ 0x9006) : (decodeLoad w next).firstWord = w := by
  unfold decodeLoad
  simp only [bits_eq]
  split
  case h_4 =>
    rw [firstWord_loadProgram _ _ (.inr (fieldRd_ne_zero 4 block (by omega) regular.1))]
    simp only [Bool.false_eq_true, if_false]
    omega
  case h_5 =>
    rw [firstWord_loadProgram _ _ (.inl rfl)]
    simp only [Bool.false_eq_true, if_false, if_true]
    omega
  case h_6 =>
    rw [firstWord_loadProgram _ _ (.inr (fieldRd_ne_zero 6 block (by omega) regular.2))]
    simp only [Bool.false_eq_true, if_false, if_true]
    omega
  case h_7 =>
    rw [firstWord_loadProgram _ _ (.inl rfl)]
    simp only [if_true]
    omega
  all_goals
    simp only [firstWord, pointerWord, UnaryOp.base, placeOne_field, UInt16.toNat_ofNat']
    omega

theorem firstWord_decodeStore {w : Nat} (next : UInt16) (block : w / 512 = 0x49) :
    (decodeStore w next).firstWord = w := by
  unfold decodeStore
  simp only [bits_eq]
  split
  all_goals
    simp only [firstWord, pointerWord, UnaryOp.base, placeOne_field, UInt16.toNat_ofNat']
    omega

theorem firstWord_decodeControl {w : Nat} (block : w / 512 = 0x4A) (row : w % 16 = 8) :
    (decodeControl w).firstWord = w := by
  unfold decodeControl
  simp only [bits_eq]
  split
  · simp only [firstWord, UInt8.toNat_ofNat', if_true]; omega
  · simp only [firstWord, UInt8.toNat_ofNat', Bool.false_eq_true, if_false]; omega
  · split
    case h_9 => simp only [firstWord, UInt16.toNat_ofNat']; omega
    all_goals rfl

theorem firstWord_decodeIndirect {w : Nat} (small : w < 65536) :
    (decodeIndirect w).firstWord = w := by
  unfold decodeIndirect
  split
  case h_5 => simp only [firstWord, UInt16.toNat_ofNat']; omega
  all_goals rfl

theorem firstWord_decodeOne {w : Nat} (next : UInt16) (block : w / 512 = 0x4A) :
    (decodeOne w next).firstWord = w := by
  have word := next.toNat_lt
  unfold decodeOne
  simp only [bits_eq]
  split
  case h_8 => exact firstWord_decodeControl block (by omega)
  case h_9 => exact firstWord_decodeIndirect (by omega)
  case h_13 =>
    simp only [imp_false, firstWord] at *
    split <;> (simp only [decide_eq_true_eq] at *; omega)
  all_goals
    simp only [firstWord, UnaryOp.base, placeOne_field, UInt16.toNat_ofNat']
    omega

theorem firstWord_decodeIrregular {w : Nat} (next : UInt16) (block : w / 4096 = 9)
    (regular : w ≠ 0x9004 ∧ w ≠ 0x9006) : (decodeIrregular w next).firstWord = w := by
  unfold decodeIrregular
  split
  case h_1 row => exact firstWord_decodeLoad next (by simp only [bits_eq] at row; omega) regular
  case h_2 row => exact firstWord_decodeStore next (by simp only [bits_eq] at row; omega)
  case h_3 row => exact firstWord_decodeOne next (by simp only [bits_eq] at row; omega)
  case h_4 =>
    split <;>
      (simp only [firstWord, ImmediateOp.word, placePair_field]; simp only [bits_eq] at *; omega)
  case h_5 | h_6 =>
    split <;>
      (simp only [firstWord, IoBitOp.base, placeIoBit_field]; simp only [bits_eq] at *; omega)
  case h_7 =>
    simp only [imp_false, bits_eq, firstWord, BinaryOp.word, placeTwo_field] at *
    omega

theorem firstWord_decodeIo {w : Nat} (block : w / 4096 = 11) : (decodeIo w).firstWord = w := by
  unfold decodeIo
  split <;> (simp only [firstWord, placeIo_field]; simp only [bits_eq] at *; omega)

theorem firstWord_decodeBits {w : Nat} (block : w / 4096 = 15) : (decodeBits w).firstWord = w := by
  unfold decodeBits
  split
  case h_1 | h_2 =>
    simp only [firstWord, bitNumber_field]
    simp only [bits_eq, Nat.reducePow, signExtend_seven, if_true, Bool.false_eq_true, if_false] at *
    omega
  case h_3 =>
    split
    · simp only [firstWord, UInt16.toNat_ofNat']; omega
    · simp only [imp_false] at *
      split <;>
        (simp only [firstWord, RegisterBitOp.base, placeOne_field, bitNumber_field]
         simp only [imp_false, bits_eq] at *
         omega)

theorem firstWord_decode {word : UInt16} (next : UInt16)
    (regular : word.toNat ≠ 0x9004 ∧ word.toNat ≠ 0x9006) :
    (decode word next).firstWord = word.toNat := by
  have small := word.toNat_lt
  unfold decode
  dsimp only
  split
  case h_1 | h_2 | h_3 => exact firstWord_decodeTwo (by omega)
  case h_9 | h_10 => exact firstWord_decodeDisplaced (by omega)
  case h_11 => exact firstWord_decodeIrregular next ‹_› regular
  case h_12 => exact firstWord_decodeIo ‹_›
  case h_13 | h_14 =>
    simp only [firstWord, bits_eq, Nat.reducePow, signExtend_twelve, if_true, Bool.false_eq_true,
      if_false]
    omega
  case h_16 => exact firstWord_decodeBits (by simp only [imp_false] at *; omega)
  all_goals
    simp only [firstWord, ImmediateOp.word, placeByte_field]
    omega

/-! ### The second word of a decoded instruction -/

theorem startsTwoWord_iff (word : UInt16) :
    startsTwoWord word = true ↔
      (word.toNat / 512 = 0x4A ∧ word.toNat / 4 % 4 = 3) ∨
        ((word.toNat / 512 = 0x48 ∨ word.toNat / 512 = 0x49) ∧ word.toNat % 16 = 0) := by
  have small := word.toNat_lt
  have block : bits word.toNat 9 7 = word.toNat / 512 := by
    rw [bits_eq]
    omega
  unfold startsTwoWord
  dsimp only
  rw [block]
  split
  · simp only [bits_eq, decide_eq_true_eq]
    omega
  · simp only [bits_eq, Bool.and_eq_true, Bool.or_eq_true, decide_eq_true_eq]
    omega

/-- Decoding does not look at the next word, and the instruction has no second word. -/
def OneWord (decoded : UInt16 → Instr) : Prop :=
  ∀ next other, decoded next = decoded other ∧ (decoded next).secondWord? = none

/-- The instruction keeps the next word as its second one. -/
def TwoWord (decoded : UInt16 → Instr) : Prop :=
  ∀ next, (decoded next).secondWord? = some next

theorem oneWord_decodeTwo (w : Nat) : OneWord fun _ => decodeTwo w := by
  intro next other
  refine ⟨rfl, ?_⟩
  unfold decodeTwo
  repeat' split
  all_goals rfl

theorem oneWord_decodeDisplaced (w : Nat) : OneWord fun _ => decodeDisplaced w := by
  intro next other
  refine ⟨rfl, ?_⟩
  unfold decodeDisplaced
  repeat' split
  all_goals rfl

theorem oneWord_decodeIo (w : Nat) : OneWord fun _ => decodeIo w := by
  intro next other
  refine ⟨rfl, ?_⟩
  unfold decodeIo
  split <;> rfl

theorem oneWord_decodeBits (w : Nat) : OneWord fun _ => decodeBits w := by
  intro next other
  refine ⟨rfl, ?_⟩
  unfold decodeBits
  repeat' split
  all_goals rfl

theorem oneWord_decodeControl (w : Nat) : OneWord fun _ => decodeControl w := by
  intro next other
  refine ⟨rfl, ?_⟩
  unfold decodeControl
  repeat' split
  all_goals rfl

theorem oneWord_decodeIndirect (w : Nat) : OneWord fun _ => decodeIndirect w := by
  intro next other
  refine ⟨rfl, ?_⟩
  unfold decodeIndirect
  split <;> rfl

theorem oneWord_decodeLoad {w : Nat} (row : bits w 0 4 ≠ 0) : OneWord (decodeLoad w) := by
  intro next other
  unfold decodeLoad
  split
  case h_1 zero => exact absurd zero row
  all_goals exact ⟨rfl, rfl⟩

theorem twoWord_decodeLoad {w : Nat} (row : bits w 0 4 = 0) : TwoWord (decodeLoad w) := by
  intro next
  simp only [decodeLoad, row]
  rfl

theorem oneWord_decodeStore {w : Nat} (row : bits w 0 4 ≠ 0) : OneWord (decodeStore w) := by
  intro next other
  unfold decodeStore
  split
  case h_1 zero => exact absurd zero row
  all_goals exact ⟨rfl, rfl⟩

theorem twoWord_decodeStore {w : Nat} (row : bits w 0 4 = 0) : TwoWord (decodeStore w) := by
  intro next
  simp only [decodeStore, row]
  rfl

theorem oneWord_decodeOne {w : Nat} (row : bits w 0 4 < 12) : OneWord (decodeOne w) := by
  intro next other
  unfold decodeOne
  split
  case h_8 => exact oneWord_decodeControl w next other
  case h_9 => exact oneWord_decodeIndirect w next other
  case h_13 =>
    simp only [imp_false] at *
    omega
  all_goals exact ⟨rfl, rfl⟩

theorem twoWord_decodeOne {w : Nat} (row : 12 ≤ bits w 0 4) : TwoWord (decodeOne w) := by
  intro next
  unfold decodeOne
  split
  case h_13 =>
    have small := next.toNat_lt
    simp only [secondWord?, Option.some.injEq]
    apply UInt16.toNat_inj.mp
    rw [UInt16.toNat_ofNat']
    omega
  all_goals omega

theorem oneWord_decode {word : UInt16} (single : startsTwoWord word = false) :
    OneWord (decode word) := by
  have one := (not_congr (startsTwoWord_iff word)).mp (by simp [single])
  intro next other
  unfold decode
  dsimp only
  split
  case h_1 | h_2 | h_3 => exact oneWord_decodeTwo _ next other
  case h_9 | h_10 => exact oneWord_decodeDisplaced _ next other
  case h_11 block =>
    unfold decodeIrregular
    split
    case h_1 row => exact oneWord_decodeLoad (by simp only [bits_eq] at *; omega) next other
    case h_2 row => exact oneWord_decodeStore (by simp only [bits_eq] at *; omega) next other
    case h_3 row => exact oneWord_decodeOne (by simp only [bits_eq] at *; omega) next other
    case h_7 => exact ⟨rfl, rfl⟩
    all_goals split <;> exact ⟨rfl, rfl⟩
  case h_12 => exact oneWord_decodeIo _ next other
  case h_16 => exact oneWord_decodeBits _ next other
  all_goals exact ⟨rfl, rfl⟩

theorem twoWord_decode {word : UInt16} (double : startsTwoWord word = true) :
    TwoWord (decode word) := by
  have two := (startsTwoWord_iff word).mp double
  have block : word.toNat / 4096 = 9 := by omega
  intro next
  simp only [decode, block]
  unfold decodeIrregular
  split
  case h_1 => exact twoWord_decodeLoad (by simp only [bits_eq] at *; omega) next
  case h_2 => exact twoWord_decodeStore (by simp only [bits_eq] at *; omega) next
  case h_3 => exact twoWord_decodeOne (by simp only [bits_eq] at *; omega) next
  all_goals
    simp only [imp_false, bits_eq] at *
    omega

end Avr.Isa

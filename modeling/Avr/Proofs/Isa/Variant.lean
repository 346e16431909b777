import Avr.Proofs.Isa.Fields

/-!
Contract: an encoded instruction decodes to one of the same variant.

Owns:
- the variant of an instruction;
- the bits by which decoding tells the variants apart, for every shape of operands.

Operands need not fit: they are reduced to their field and never reach the bits beside it.
-/

namespace Avr.Isa

open Instr

/-- The instruction of the same variant whose operands are all zero. -/
def Instr.variant : Instr → Instr
  | binary op _ _ => binary op 0 0
  | immediate op _ _ => immediate op 0 0
  | unary op _ => unary op 0
  | flag set _ => flag set 0
  | registerBit op _ _ => registerBit op 0 0
  | branch onSet _ _ => branch onSet 0 0
  | relative call _ => relative call 0
  | absolute call _ => absolute call 0
  | input _ _ => input 0 0
  | output _ _ => output 0 0
  | ioBit op _ _ => ioBit op 0 0
  | load _ _ _ => load 0 .x (.displaced 0)
  | store _ _ _ => store .x (.displaced 0) 0
  | loadDirect _ _ => loadDirect 0 0
  | storeDirect _ _ => storeDirect 0 0
  | loadProgram extended _ _ => loadProgram extended 0 false
  | control op => control op
  | undefined _ => undefined 0

/-! ### The block of a word -/

section Blocks

variable {w : Nat} (next : UInt16)

theorem decode_two (block : w < 0x3000) : decode (UInt16.ofNat w) next = decodeTwo w := by
  have fits : w % 65536 = w := by omega
  have blocks : w / 4096 = 0 ∨ w / 4096 = 1 ∨ w / 4096 = 2 := by omega
  rcases blocks with block | block | block <;>
    simp only [decode, UInt16.toNat_ofNat', Nat.reducePow, fits, block]

theorem decode_displaced (block : w / 4096 = 8 ∨ w / 4096 = 10) :
    decode (UInt16.ofNat w) next = decodeDisplaced w := by
  have fits : w % 65536 = w := by omega
  rcases block with block | block <;>
    simp only [decode, UInt16.toNat_ofNat', Nat.reducePow, fits, block]

theorem decode_irregular (block : w / 4096 = 9) :
    decode (UInt16.ofNat w) next = decodeIrregular w next := by
  have fits : w % 65536 = w := by omega
  simp only [decode, UInt16.toNat_ofNat', Nat.reducePow, fits, block]

theorem decode_io (block : w / 4096 = 11) : decode (UInt16.ofNat w) next = decodeIo w := by
  have fits : w % 65536 = w := by omega
  simp only [decode, UInt16.toNat_ofNat', Nat.reducePow, fits, block]

theorem decode_bits (block : w / 4096 = 15) : decode (UInt16.ofNat w) next = decodeBits w := by
  have fits : w % 65536 = w := by omega
  simp only [decode, UInt16.toNat_ofNat', Nat.reducePow, fits, block]

theorem decode_load (block : w / 512 = 0x48) :
    decode (UInt16.ofNat w) next = decodeLoad w next := by
  have fields : bits w 9 3 = 0 := by simp only [bits_eq]; omega
  rw [decode_irregular next (by omega)]
  simp only [decodeIrregular, fields]

theorem decode_store (block : w / 512 = 0x49) :
    decode (UInt16.ofNat w) next = decodeStore w next := by
  have fields : bits w 9 3 = 1 := by simp only [bits_eq]; omega
  rw [decode_irregular next (by omega)]
  simp only [decodeIrregular, fields]

theorem decode_one (block : w / 512 = 0x4A) :
    decode (UInt16.ofNat w) next = decodeOne w next := by
  have fields : bits w 9 3 = 2 := by simp only [bits_eq]; omega
  rw [decode_irregular next (by omega)]
  simp only [decodeIrregular, fields]

end Blocks

/-! ### Operations on registers -/

/-- Row `0000 0011` holds the multiplications of registers 16 to 23. -/
theorem variant_decode_multiply {w : Nat} (next : UInt16) (row : w / 256 = 3) :
    (decode (UInt16.ofNat w) next).variant =
      if w / 128 % 2 = 0 then
        if w / 8 % 2 = 0 then .binary .mulsu 0 0 else .binary .fmul 0 0
      else
        if w / 8 % 2 = 0 then .binary .fmuls 0 0 else .binary .fmulsu 0 0 := by
  have fields : bits w 10 4 = 0 ∧ bits w 8 2 = 3 ∧ bits w 7 1 = w / 128 % 2 ∧
      bits w 3 1 = w / 8 % 2 := by
    simp only [bits_eq, Nat.reducePow, and_true]
    omega
  rw [decode_two next (by omega)]
  simp only [decodeTwo, fields]
  rcases Nat.mod_two_eq_zero_or_one (w / 128) with first | first <;>
    rcases Nat.mod_two_eq_zero_or_one (w / 8) with second | second <;>
      simp only [first, second, reduceIte, Nat.one_ne_zero, Instr.variant]

theorem variant_decode_binary (op : BinaryOp) (rd rr : Reg) (next : UInt16) :
    (decode (UInt16.ofNat (op.word rd rr)) next).variant = .binary op 0 0 := by
  have small := placeTwo_lt rd rr
  have row (base : Nat) (aligned : base % 2 ^ 10 = 0) :
      bits (base + placeTwo rd rr) 10 4 = bits base 10 4 :=
    bits_above aligned small (Nat.le_refl _)
  cases op
  case mul =>
    have row : bits (0x9C00 + placeTwo rd rr) 9 3 = 6 ∨ bits (0x9C00 + placeTwo rd rr) 9 3 = 7 := by
      simp only [bits_eq]
      omega
    rw [BinaryOp.word, decode_irregular next (by omega)]
    rcases row with row | row <;> simp only [decodeIrregular, row, Instr.variant]
  case movw =>
    have fields : bits (0x0100 + rd.val / 2 * 16 + rr.val / 2) 10 4 = 0 ∧
        bits (0x0100 + rd.val / 2 * 16 + rr.val / 2) 8 2 = 1 := by
      simp only [bits_eq]
      omega
    rw [BinaryOp.word, decode_two next (by omega)]
    simp only [decodeTwo, fields, Instr.variant]
  case muls =>
    have fields : bits (0x0200 + rd.val % 16 * 16 + rr.val % 16) 10 4 = 0 ∧
        bits (0x0200 + rd.val % 16 * 16 + rr.val % 16) 8 2 = 2 := by
      simp only [bits_eq]
      omega
    rw [BinaryOp.word, decode_two next (by omega)]
    simp only [decodeTwo, fields, Instr.variant]
  case mulsu =>
    rw [BinaryOp.word, variant_decode_multiply next (by omega), if_pos (by omega),
      if_pos (by omega)]
  case fmul =>
    rw [BinaryOp.word, variant_decode_multiply next (by omega), if_pos (by omega),
      if_neg (by omega)]
  case fmuls =>
    rw [BinaryOp.word, variant_decode_multiply next (by omega), if_neg (by omega),
      if_pos (by omega)]
  case fmulsu =>
    rw [BinaryOp.word, variant_decode_multiply next (by omega), if_neg (by omega),
      if_neg (by omega)]
  all_goals
    rw [BinaryOp.word, decode_two next (by omega), decodeTwo, row _ rfl]
    rfl

theorem variant_decode_immediate (op : ImmediateOp) (rd : Reg) (k : UInt8) (next : UInt16) :
    (decode (UInt16.ofNat (op.word rd k)) next).variant = .immediate op 0 0 := by
  have byte := placeByte_lt rd k
  have pair := placePair_lt rd k
  have row (base low width : Nat) (aligned : base % 2 ^ 8 = 0) (above : 8 ≤ low) :
      bits (base + placePair rd k) low width = bits base low width :=
    bits_above aligned pair above
  cases op
  case adiw | sbiw =>
    rw [ImmediateOp.word, decode_irregular next (by omega), decodeIrregular,
      row _ 9 3 rfl (by decide), row _ 8 1 rfl (by decide)]
    rfl
  all_goals
    -- These have a whole block each, so the four upper bits tell them apart.
    have block (base : Nat) (aligned : base % 4096 = 0) (fits : base < 65536) :
        (base + placeByte rd k) % 2 ^ 16 / 4096 = base / 4096 := by omega
    rw [ImmediateOp.word, decode, UInt16.toNat_ofNat', block _ rfl (by decide)]
    rfl

theorem variant_decode_unary (op : UnaryOp) (r : Reg) (next : UInt16) :
    (decode (UInt16.ofNat (op.base + placeOne r)) next).variant = .unary op 0 := by
  have register : placeOne r < 512 := by
    simp only [placeOne]
    omega
  cases op
  case push =>
    rw [UnaryOp.base, decode_store next (by simp only [placeOne]; omega), decodeStore,
      bits_below_one _ r (by decide)]
    rfl
  case pop =>
    rw [UnaryOp.base, decode_load next (by simp only [placeOne]; omega), decodeLoad,
      bits_below_one _ r (by decide)]
    rfl
  all_goals
    rw [UnaryOp.base, decode_one next (by simp only [placeOne]; omega), decodeOne,
      bits_below_one _ r (by decide)]
    rfl

/-! ### Bits, branches and jumps -/

theorem variant_decode_flag (set : Bool) (s : UInt8) (next : UInt16) :
    (decode (UInt16.ofNat (flag set s).firstWord) next).variant = .flag set 0 := by
  cases set
  case false =>
    have fields : bits (0x9488 + s.toNat % 8 * 16) 0 4 = 8 ∧
        bits (0x9488 + s.toNat % 8 * 16) 7 2 = 1 := by
      simp only [bits_eq]
      omega
    simp only [firstWord, Bool.false_eq_true, if_false]
    rw [decode_one next (by omega)]
    simp only [decodeOne, decodeControl, fields, Instr.variant]
  case true =>
    have fields : bits (0x9408 + s.toNat % 8 * 16) 0 4 = 8 ∧
        bits (0x9408 + s.toNat % 8 * 16) 7 2 = 0 := by
      simp only [bits_eq]
      omega
    simp only [firstWord, if_true]
    rw [decode_one next (by omega)]
    simp only [decodeOne, decodeControl, fields, Instr.variant]

theorem variant_decode_registerBit (op : RegisterBitOp) (r : Reg) (b : UInt8) (next : UInt16) :
    (decode (UInt16.ofNat (op.base + placeOne r + b.toNat % 8)) next).variant =
      .registerBit op 0 0 := by
  have small : placeOne r + b.toNat % 8 < 2 ^ 9 := by
    simp only [placeOne]
    omega
  have row (base low width : Nat) (aligned : base % 2 ^ 9 = 0) (above : 9 ≤ low) :
      bits (base + (placeOne r + b.toNat % 8)) low width = bits base low width :=
    bits_above aligned small above
  have plain (base : Nat) (aligned : base % 16 = 0) :
      bits (base + (placeOne r + b.toNat % 8)) 3 1 = 0 := by
    simp only [bits_eq, placeOne]
    omega
  rw [Nat.add_assoc]
  cases op
  all_goals
    rw [RegisterBitOp.base, decode_bits next (by omega), decodeBits, row _ 10 2 rfl (by decide),
      plain _ rfl, row _ 9 2 rfl (by decide)]
    rfl

theorem variant_decode_branch (onSet : Bool) (s : UInt8) (k : Int) (next : UInt16) :
    (decode (UInt16.ofNat (branch onSet s k).firstWord) next).variant = .branch onSet 0 0 := by
  have small : (k % 128).toNat * 8 + s.toNat % 8 < 2 ^ 10 := by omega
  have row (base : Nat) (aligned : base % 2 ^ 10 = 0) :
      bits (base + ((k % 128).toNat * 8 + s.toNat % 8)) 10 2 = bits base 10 2 :=
    bits_above aligned small (Nat.le_refl _)
  rw [firstWord, Nat.add_assoc]
  cases onSet
  all_goals
    simp only [Bool.false_eq_true, if_false, if_true]
    rw [decode_bits next (by omega), decodeBits, row _ rfl]
    rfl

theorem variant_decode_relative (call : Bool) (k : Int) (next : UInt16) :
    (decode (UInt16.ofNat (relative call k).firstWord) next).variant = .relative call 0 := by
  have block (base : Nat) (aligned : base % 4096 = 0) (fits : base < 65536) :
      (base + (k % 4096).toNat) % 2 ^ 16 / 4096 = base / 4096 := by omega
  cases call
  all_goals
    simp only [firstWord, Bool.false_eq_true, if_false, if_true]
    rw [decode, UInt16.toNat_ofNat', block _ rfl (by decide)]
    rfl

/-- The upper six bits of the target lie around bit 1, which tells a call from a jump. -/
theorem variant_decode_absolute (call : Bool) (k : Nat) (next : UInt16) :
    (decode (UInt16.ofNat (absolute call k).firstWord) next).variant = .absolute call 0 := by
  have row {w : Nat} (row : 12 ≤ w % 16) (block : w / 512 = 0x4A) :
      (decode (UInt16.ofNat w) next).variant = .absolute (w / 2 % 2 = 1) 0 := by
    rw [decode_one next block]
    unfold decodeOne
    simp only [bits_eq]
    split
    case h_13 => rfl
    all_goals omega
  rw [row (by simp only [firstWord]; split <;> omega) (by simp only [firstWord]; split <;> omega)]
  congr 1
  cases call
  all_goals
    simp only [firstWord, Bool.false_eq_true, if_false, if_true, decide_eq_true_eq,
      decide_eq_false_iff_not]
    omega

theorem variant_decode_io (set : Bool) (r : Reg) (a : UInt8) (next : UInt16) :
    (decode (UInt16.ofNat ((if set then 0xB800 else 0xB000) + placeIo r a)) next).variant =
      if set then .output 0 0 else .input 0 0 := by
  have small := placeIo_lt r a
  have row (base : Nat) (aligned : base % 2 ^ 11 = 0) :
      bits (base + placeIo r a) 11 1 = bits base 11 1 :=
    bits_above aligned small (Nat.le_refl _)
  cases set
  all_goals
    simp only [Bool.false_eq_true, if_false, if_true]
    rw [decode_io next (by omega), decodeIo, row _ rfl]
    rfl

theorem variant_decode_ioBit (op : IoBitOp) (a b : UInt8) (next : UInt16) :
    (decode (UInt16.ofNat (op.base + placeIoBit a b)) next).variant = .ioBit op 0 0 := by
  have small := placeIoBit_lt a b
  have row (base low width : Nat) (aligned : base % 2 ^ 8 = 0) (above : 8 ≤ low) :
      bits (base + placeIoBit a b) low width = bits base low width :=
    bits_above aligned small above
  cases op
  all_goals
    rw [IoBitOp.base, decode_irregular next (by omega), decodeIrregular,
      row _ 9 3 rfl (by decide), row _ 8 1 rfl (by decide)]
    rfl

/-! ### Memory -/

/-- The displaced forms of `Y` and `Z` have two blocks of their own, where bit 9 marks a store. -/
theorem variant_decode_displaced (stores : Bool) (base : Nat) (offset : UInt8) (r : Reg)
    (next : UInt16) (block : base / 512 = if stores then 0x41 else 0x40)
    (free : base % 512 < 16 ∧ base % 8 = 0) :
    (decode (UInt16.ofNat (base + placeOffset offset + placeOne r)) next).variant =
      if stores then .store .x (.displaced 0) 0 else .load 0 .x (.displaced 0) := by
  -- The parts of the offset above bit 9 leave bit 9 and the block alone.
  obtain ⟨high, middle, rest, parts, fit⟩ :
      ∃ high middle rest, base + placeOffset offset + placeOne r =
          512 * (base / 512 + 16 * high + 2 * middle) + rest ∧
        high < 2 ∧ middle < 4 ∧ rest < 512 := by
    refine ⟨offset.toNat / 32 % 2, offset.toNat / 8 % 4,
      base % 512 + offset.toNat % 8 + placeOne r, ?_, by omega, by omega, ?_⟩
    · simp only [placeOffset]
      omega
    · simp only [placeOne]
      omega
  rw [parts]
  cases stores
  all_goals simp only [Bool.false_eq_true, if_false, if_true] at block ⊢
  case false =>
    have field : bits (512 * (base / 512 + 16 * high + 2 * middle) + rest) 9 1 = 0 := by
      simp only [bits_eq]
      omega
    rw [decode_displaced next (by omega), decodeDisplaced, field]
    rfl
  case true =>
    have field : bits (512 * (base / 512 + 16 * high + 2 * middle) + rest) 9 1 = 1 := by
      simp only [bits_eq]
      omega
    rw [decode_displaced next (by omega), decodeDisplaced, field]
    rfl

theorem variant_decode_load (rd : Reg) (pointer : Pointer) (mode : PointerMode) (next : UInt16) :
    (decode (UInt16.ofNat (pointerWord 0x9000 rd pointer mode)) next).variant =
      .load 0 .x (.displaced 0) := by
  cases pointer <;> cases mode
  case y.displaced | z.displaced =>
    exact variant_decode_displaced false _ _ _ next rfl (by decide)
  all_goals
    rw [pointerWord, decode_load next (by simp only [placeOne]; omega), decodeLoad,
      bits_below_one _ rd (by decide)]
    rfl

theorem variant_decode_store (pointer : Pointer) (mode : PointerMode) (rr : Reg) (next : UInt16) :
    (decode (UInt16.ofNat (pointerWord 0x9200 rr pointer mode)) next).variant =
      .store .x (.displaced 0) 0 := by
  cases pointer <;> cases mode
  case y.displaced | z.displaced =>
    exact variant_decode_displaced true _ _ _ next rfl (by decide)
  all_goals
    rw [pointerWord, decode_store next (by simp only [placeOne]; omega), decodeStore,
      bits_below_one _ rr (by decide)]
    rfl

theorem variant_decode_loadDirect (rd : Reg) (next : UInt16) :
    (decode (UInt16.ofNat (0x9000 + placeOne rd)) next).variant = .loadDirect 0 0 := by
  rw [decode_load next (by simp only [placeOne]; omega), decodeLoad,
    bits_below_one _ rd (by decide)]
  rfl

theorem variant_decode_storeDirect (rr : Reg) (next : UInt16) :
    (decode (UInt16.ofNat (0x9200 + placeOne rr)) next).variant = .storeDirect 0 0 := by
  rw [decode_store next (by simp only [placeOne]; omega), decodeStore,
    bits_below_one _ rr (by decide)]
  rfl

theorem variant_decode_loadProgram (extended : Bool) (rd : Reg) (increment : Bool)
    (next : UInt16) :
    (decode (UInt16.ofNat (loadProgram extended rd increment).firstWord) next).variant =
      .loadProgram extended 0 false := by
  rw [firstWord]
  split
  case isTrue => cases extended <;> rfl
  case isFalse =>
    cases extended <;> cases increment
    all_goals
      simp only [Bool.false_eq_true, if_false, if_true]
      rw [decode_load next (by simp only [placeOne]; omega), decodeLoad,
        bits_below_one _ rd (by decide)]
      rfl

theorem decode_control (op : ControlOp) (next : UInt16) :
    decode (UInt16.ofNat op.word) next = .control op := by
  cases op <;> rfl

/-! ### Every instruction -/

theorem variant_decode_firstWord (i : Instr) (next : UInt16) (supported : ∀ w, i ≠ .undefined w) :
    (decode (UInt16.ofNat i.firstWord) next).variant = i.variant := by
  cases i with
  | binary op rd rr => exact variant_decode_binary op rd rr next
  | immediate op rd k => exact variant_decode_immediate op rd k next
  | unary op r => exact variant_decode_unary op r next
  | flag set s => exact variant_decode_flag set s next
  | registerBit op r b => exact variant_decode_registerBit op r b next
  | branch onSet s k => exact variant_decode_branch onSet s k next
  | relative call k => exact variant_decode_relative call k next
  | absolute call k => exact variant_decode_absolute call k next
  | input rd a => exact variant_decode_io false rd a next
  | output a rr => exact variant_decode_io true rr a next
  | ioBit op a b => exact variant_decode_ioBit op a b next
  | load rd pointer mode => exact variant_decode_load rd pointer mode next
  | store pointer mode rr => exact variant_decode_store pointer mode rr next
  | loadDirect rd _ => exact variant_decode_loadDirect rd next
  | storeDirect _ rr => exact variant_decode_storeDirect rr next
  | loadProgram extended rd increment =>
    exact variant_decode_loadProgram extended rd increment next
  | control op => exact congrArg variant (decode_control op next)
  | undefined w => exact absurd rfl (supported w)

end Avr.Isa

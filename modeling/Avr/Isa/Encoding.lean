import Avr.Isa.Instr

/-!
Contract: machine words of an instruction.

Owns:
- the word or two words of every instruction, as sums of placed fields.

An operand that does not fit its field is reduced to the width of the field.
Does not own: which instruction a word stands for.
-/

namespace Avr.Isa

/-- The field of `width` bits of `word` that starts at bit `low`. -/
def bits (word low width : Nat) : Nat :=
  (word >>> low) % (1 <<< width)

/-- Both registers in full: `.... ..rd dddd rrrr`. -/
def placeTwo (rd rr : Reg) : Nat :=
  rd.val * 16 + rr.val / 16 * 512 + rr.val % 16

/-- Registers 16 to 31 with a byte: `.... kkkk dddd kkkk`. -/
def placeByte (rd : Reg) (k : UInt8) : Nat :=
  k.toNat / 16 * 256 + rd.val % 16 * 16 + k.toNat % 16

/-- Register pairs 24, 26, 28, 30 with six bits: `.... .... kkdd kkkk`. -/
def placePair (rd : Reg) (k : UInt8) : Nat :=
  k.toNat / 16 % 4 * 64 + rd.val / 2 % 4 * 16 + k.toNat % 16

/-- One register in full: `.... ...d dddd ....`. -/
def placeOne (r : Reg) : Nat :=
  r.val * 16

/-- Six bits of a displacement: `..q. qq.. .... .qqq`. -/
def placeOffset (offset : UInt8) : Nat :=
  offset.toNat / 32 % 2 * 8192 + offset.toNat / 8 % 4 * 1024 + offset.toNat % 8

/-- A register with a full IO address: `.... .aad dddd aaaa`. -/
def placeIo (r : Reg) (a : UInt8) : Nat :=
  a.toNat / 16 % 4 * 512 + r.val * 16 + a.toNat % 16

/-- A low IO address with a bit number: `.... .... aaaa abbb`. -/
def placeIoBit (a b : UInt8) : Nat :=
  a.toNat % 32 * 8 + b.toNat % 8

def BinaryOp.word (op : BinaryOp) (rd rr : Reg) : Nat :=
  match op with
  | .cpc => 0x0400 + placeTwo rd rr
  | .sbc => 0x0800 + placeTwo rd rr
  | .add => 0x0C00 + placeTwo rd rr
  | .cpse => 0x1000 + placeTwo rd rr
  | .cp => 0x1400 + placeTwo rd rr
  | .sub => 0x1800 + placeTwo rd rr
  | .adc => 0x1C00 + placeTwo rd rr
  | .and => 0x2000 + placeTwo rd rr
  | .eor => 0x2400 + placeTwo rd rr
  | .or => 0x2800 + placeTwo rd rr
  | .mov => 0x2C00 + placeTwo rd rr
  | .mul => 0x9C00 + placeTwo rd rr
  | .movw => 0x0100 + rd.val / 2 * 16 + rr.val / 2
  | .muls => 0x0200 + rd.val % 16 * 16 + rr.val % 16
  | .mulsu => 0x0300 + rd.val % 8 * 16 + rr.val % 8
  | .fmul => 0x0308 + rd.val % 8 * 16 + rr.val % 8
  | .fmuls => 0x0380 + rd.val % 8 * 16 + rr.val % 8
  | .fmulsu => 0x0388 + rd.val % 8 * 16 + rr.val % 8

def ImmediateOp.word (op : ImmediateOp) (rd : Reg) (k : UInt8) : Nat :=
  match op with
  | .cpi => 0x3000 + placeByte rd k
  | .sbci => 0x4000 + placeByte rd k
  | .subi => 0x5000 + placeByte rd k
  | .ori => 0x6000 + placeByte rd k
  | .andi => 0x7000 + placeByte rd k
  | .ldi => 0xE000 + placeByte rd k
  | .adiw => 0x9600 + placePair rd k
  | .sbiw => 0x9700 + placePair rd k

def UnaryOp.base : UnaryOp → Nat
  | .com => 0x9400
  | .neg => 0x9401
  | .swap => 0x9402
  | .inc => 0x9403
  | .asr => 0x9405
  | .lsr => 0x9406
  | .ror => 0x9407
  | .dec => 0x940A
  | .push => 0x920F
  | .pop => 0x900F

def RegisterBitOp.base : RegisterBitOp → Nat
  | .bld => 0xF800
  | .bst => 0xFA00
  | .sbrc => 0xFC00
  | .sbrs => 0xFE00

def IoBitOp.base : IoBitOp → Nat
  | .cbi => 0x9800
  | .sbic => 0x9900
  | .sbi => 0x9A00
  | .sbis => 0x9B00

def ControlOp.word : ControlOp → Nat
  | .ijmp => 0x9409
  | .icall => 0x9509
  | .eijmp => 0x9419
  | .eicall => 0x9519
  | .ret => 0x9508
  | .reti => 0x9518
  | .spm => 0x95E8
  | .nop => 0x0000
  | .sleep => 0x9588
  | .break => 0x9598
  | .wdr => 0x95A8

/-- Word of a load (`base` is `0x9000`) or store (`base` is `0x9200`) through a pointer.

`X` has no displacement, so any displacement of it is dropped. The displaced forms of `Y` and `Z`
live in a block of their own, with the store bit in the same place. -/
def pointerWord (base : Nat) (r : Reg) (pointer : Pointer) (mode : PointerMode) : Nat :=
  match pointer, mode with
  | .x, .displaced _ => base + 0xC + placeOne r
  | .x, .postIncrement => base + 0xD + placeOne r
  | .x, .preDecrement => base + 0xE + placeOne r
  | .y, .postIncrement => base + 0x9 + placeOne r
  | .y, .preDecrement => base + 0xA + placeOne r
  | .z, .postIncrement => base + 0x1 + placeOne r
  | .z, .preDecrement => base + 0x2 + placeOne r
  | .y, .displaced offset => base - 0x1000 + 0x8 + placeOffset offset + placeOne r
  | .z, .displaced offset => base - 0x1000 + placeOffset offset + placeOne r

namespace Instr

def firstWord : Instr → Nat
  | binary op rd rr => op.word rd rr
  | immediate op rd k => op.word rd k
  | unary op r => op.base + placeOne r
  | flag set s => (if set then 0x9408 else 0x9488) + s.toNat % 8 * 16
  | registerBit op r b => op.base + placeOne r + b.toNat % 8
  | branch onSet s k => (if onSet then 0xF000 else 0xF400) + (k % 128).toNat * 8 + s.toNat % 8
  | relative call k => (if call then 0xD000 else 0xC000) + (k % 4096).toNat
  | absolute call k =>
      (if call then 0x940E else 0x940C) + k / 131072 % 32 * 16 + k / 65536 % 2
  | input rd a => 0xB000 + placeIo rd a
  | output a rr => 0xB800 + placeIo rr a
  | ioBit op a b => op.base + placeIoBit a b
  | load rd pointer mode => pointerWord 0x9000 rd pointer mode
  | store pointer mode rr => pointerWord 0x9200 rr pointer mode
  | loadDirect rd _ => 0x9000 + placeOne rd
  | storeDirect _ rr => 0x9200 + placeOne rr
  | loadProgram extended rd increment =>
      if rd = 0 ∧ increment = false then
        if extended then 0x95D8 else 0x95C8
      else
        (if extended then 0x9006 else 0x9004) + (if increment then 1 else 0) + placeOne rd
  | control op => op.word
  | undefined word => word.toNat

/-- Second word, of the two-word instructions only. -/
def secondWord? : Instr → Option UInt16
  | absolute _ k => some (UInt16.ofNat k)
  | loadDirect _ k => some k
  | storeDirect k _ => some k
  | _ => none

/-- The machine words of an instruction. -/
def encode (i : Instr) : UInt16 × Option UInt16 :=
  (UInt16.ofNat i.firstWord, i.secondWord?)

/-- The machine words as a list. -/
def words (i : Instr) : List UInt16 :=
  i.encode.1 :: i.encode.2.toList

theorem secondWord?_isSome (i : Instr) : i.secondWord?.isSome = i.isTwoWord := by
  cases i <;> rfl

theorem length_words (i : Instr) : 2 * i.words.length = i.size := by
  cases i <;> rfl

end Instr

end Avr.Isa

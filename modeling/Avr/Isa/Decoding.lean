import Avr.Isa.Encoding

/-!
Contract: the instruction a word stands for.

Owns:
- decoding of every word, with the following word for the two-word instructions;
- the test that sizes an instruction from its first word alone.

Decoding is total: a word without a supported meaning is `Instr.undefined`.
-/

namespace Avr.Isa

/-- The unsigned field `value` of `width` bits read in two's complement. -/
def signExtend (width value : Nat) : Int :=
  if value < 1 <<< (width - 1) then value else (value : Int) - (1 <<< width : Nat)

/-- The register with the given field value; fields are never wider than five bits. -/
def regOf (value : Nat) : Reg :=
  ⟨value % 32, Nat.mod_lt _ (by decide)⟩

/-- Register in bits 4 to 8. -/
def fieldRd (w : Nat) : Reg :=
  regOf (bits w 4 5)

/-- Register in bit 9 and bits 0 to 3. -/
def fieldRr (w : Nat) : Reg :=
  regOf (bits w 9 1 * 16 + bits w 0 4)

/-- Upper register in bits 4 to 7. -/
def fieldHigh (w : Nat) : Reg :=
  regOf (16 + bits w 4 4)

/-- Byte in bits 8 to 11 and 0 to 3. -/
def fieldByte (w : Nat) : UInt8 :=
  UInt8.ofNat (bits w 8 4 * 16 + bits w 0 4)

/-- Blocks `0000`, `0001` and `0010`: operations on two registers. -/
def decodeTwo (w : Nat) : Instr :=
  let op (op : BinaryOp) : Instr := .binary op (fieldRd w) (fieldRr w)
  match bits w 10 4 with
  | 0 =>
    match bits w 8 2 with
    | 0 => if w = 0 then .control .nop else .undefined (UInt16.ofNat w)
    | 1 => .binary .movw (regOf (bits w 4 4 * 2)) (regOf (bits w 0 4 * 2))
    | 2 => .binary .muls (fieldHigh w) (regOf (16 + bits w 0 4))
    | _ =>
      let rd := regOf (16 + bits w 4 3)
      let rr := regOf (16 + bits w 0 3)
      match bits w 7 1, bits w 3 1 with
      | 0, 0 => .binary .mulsu rd rr
      | 0, _ => .binary .fmul rd rr
      | _, 0 => .binary .fmuls rd rr
      | _, _ => .binary .fmulsu rd rr
  | 1 => op .cpc
  | 2 => op .sbc
  | 3 => op .add
  | 4 => op .cpse
  | 5 => op .cp
  | 6 => op .sub
  | 7 => op .adc
  | 8 => op .and
  | 9 => op .eor
  | 10 => op .or
  | _ => op .mov

/-- Blocks `1000` and `1010`: loads and stores with a displacement. -/
def decodeDisplaced (w : Nat) : Instr :=
  let offset := UInt8.ofNat (bits w 13 1 * 32 + bits w 10 2 * 8 + bits w 0 3)
  let pointer := if bits w 3 1 = 0 then Pointer.z else Pointer.y
  if bits w 9 1 = 0 then
    .load (fieldRd w) pointer (.displaced offset)
  else
    .store pointer (.displaced offset) (fieldRd w)

/-- Block `1001 000`: loads, and reads of program memory. -/
def decodeLoad (w : Nat) (next : UInt16) : Instr :=
  let rd := fieldRd w
  match bits w 0 4 with
  | 0x0 => .loadDirect rd next
  | 0x1 => .load rd .z .postIncrement
  | 0x2 => .load rd .z .preDecrement
  | 0x4 => .loadProgram false rd false
  | 0x5 => .loadProgram false rd true
  | 0x6 => .loadProgram true rd false
  | 0x7 => .loadProgram true rd true
  | 0x9 => .load rd .y .postIncrement
  | 0xA => .load rd .y .preDecrement
  | 0xC => .load rd .x (.displaced 0)
  | 0xD => .load rd .x .postIncrement
  | 0xE => .load rd .x .preDecrement
  | 0xF => .unary .pop rd
  | _ => .undefined (UInt16.ofNat w)

/-- Block `1001 001`: stores. -/
def decodeStore (w : Nat) (next : UInt16) : Instr :=
  let rr := fieldRd w
  match bits w 0 4 with
  | 0x0 => .storeDirect next rr
  | 0x1 => .store .z .postIncrement rr
  | 0x2 => .store .z .preDecrement rr
  | 0x9 => .store .y .postIncrement rr
  | 0xA => .store .y .preDecrement rr
  | 0xC => .store .x (.displaced 0) rr
  | 0xD => .store .x .postIncrement rr
  | 0xE => .store .x .preDecrement rr
  | 0xF => .unary .push rr
  | _ => .undefined (UInt16.ofNat w)

/-- The rows of block `1001 010` that end in `1000`: flags, returns and machine control. -/
def decodeControl (w : Nat) : Instr :=
  match bits w 7 2 with
  | 0 => .flag true (UInt8.ofNat (bits w 4 3))
  | 1 => .flag false (UInt8.ofNat (bits w 4 3))
  | _ =>
    match w with
    | 0x9508 => .control .ret
    | 0x9518 => .control .reti
    | 0x9588 => .control .sleep
    | 0x9598 => .control .break
    | 0x95A8 => .control .wdr
    | 0x95C8 => .loadProgram false 0 false
    | 0x95D8 => .loadProgram true 0 false
    | 0x95E8 => .control .spm
    | _ => .undefined (UInt16.ofNat w)

/-- The rows of block `1001 010` that end in `1001`: indirect jumps and calls. -/
def decodeIndirect (w : Nat) : Instr :=
  match w with
  | 0x9409 => .control .ijmp
  | 0x9419 => .control .eijmp
  | 0x9509 => .control .icall
  | 0x9519 => .control .eicall
  | _ => .undefined (UInt16.ofNat w)

/-- Block `1001 010`: operations on one register, control, and far jumps. -/
def decodeOne (w : Nat) (next : UInt16) : Instr :=
  let r := fieldRd w
  match bits w 0 4 with
  | 0x0 => .unary .com r
  | 0x1 => .unary .neg r
  | 0x2 => .unary .swap r
  | 0x3 => .unary .inc r
  | 0x5 => .unary .asr r
  | 0x6 => .unary .lsr r
  | 0x7 => .unary .ror r
  | 0x8 => decodeControl w
  | 0x9 => decodeIndirect w
  | 0xA => .unary .dec r
  | 0x4 | 0xB => .undefined (UInt16.ofNat w)
  | _ =>
    .absolute (bits w 1 1 = 1) (bits w 4 5 * 131072 + bits w 0 1 * 65536 + next.toNat)

/-- Block `1001`, which holds most of the irregular encodings. -/
def decodeIrregular (w : Nat) (next : UInt16) : Instr :=
  let a := UInt8.ofNat (bits w 3 5)
  let b := UInt8.ofNat (bits w 0 3)
  match bits w 9 3 with
  | 0 => decodeLoad w next
  | 1 => decodeStore w next
  | 2 => decodeOne w next
  | 3 =>
    let rd := regOf (24 + bits w 4 2 * 2)
    let k := UInt8.ofNat (bits w 6 2 * 16 + bits w 0 4)
    if bits w 8 1 = 0 then .immediate .adiw rd k else .immediate .sbiw rd k
  | 4 => if bits w 8 1 = 0 then .ioBit .cbi a b else .ioBit .sbic a b
  | 5 => if bits w 8 1 = 0 then .ioBit .sbi a b else .ioBit .sbis a b
  | _ => .binary .mul (fieldRd w) (fieldRr w)

/-- Block `1011`: reads and writes of IO registers. -/
def decodeIo (w : Nat) : Instr :=
  let a := UInt8.ofNat (bits w 9 2 * 16 + bits w 0 4)
  if bits w 11 1 = 0 then .input (fieldRd w) a else .output a (fieldRd w)

/-- Block `1111`: branches, bit copies and bit skips. -/
def decodeBits (w : Nat) : Instr :=
  let s := UInt8.ofNat (bits w 0 3)
  let k := signExtend 7 (bits w 3 7)
  match bits w 10 2 with
  | 0 => .branch true s k
  | 1 => .branch false s k
  | _ =>
    if bits w 3 1 = 1 then
      .undefined (UInt16.ofNat w)
    else
      match bits w 9 2 with
      | 0 => .registerBit .bld (fieldRd w) s
      | 1 => .registerBit .bst (fieldRd w) s
      | 2 => .registerBit .sbrc (fieldRd w) s
      | _ => .registerBit .sbrs (fieldRd w) s

namespace Instr

/-- The instruction whose first word is `word`.

`next` is the word after it, which only the two-word instructions look at. -/
def decode (word next : UInt16) : Instr :=
  let w := word.toNat
  match w / 4096 with
  | 0x0 | 0x1 | 0x2 => decodeTwo w
  | 0x3 => .immediate .cpi (fieldHigh w) (fieldByte w)
  | 0x4 => .immediate .sbci (fieldHigh w) (fieldByte w)
  | 0x5 => .immediate .subi (fieldHigh w) (fieldByte w)
  | 0x6 => .immediate .ori (fieldHigh w) (fieldByte w)
  | 0x7 => .immediate .andi (fieldHigh w) (fieldByte w)
  | 0x8 | 0xA => decodeDisplaced w
  | 0x9 => decodeIrregular w next
  | 0xB => decodeIo w
  | 0xC => .relative false (signExtend 12 (bits w 0 12))
  | 0xD => .relative true (signExtend 12 (bits w 0 12))
  | 0xE => .immediate .ldi (fieldHigh w) (fieldByte w)
  | _ => decodeBits w

end Instr

/-- Whether a word starts a two-word instruction. -/
def startsTwoWord (word : UInt16) : Bool :=
  let w := word.toNat
  if bits w 9 7 = 0x4A then
    bits w 2 2 = 3
  else
    (bits w 9 7 = 0x48 || bits w 9 7 = 0x49) && bits w 0 4 = 0

end Avr.Isa

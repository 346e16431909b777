import Avr.Isa.Register

/-!
Contract: the instruction set, one constructor for each shape of operands.

Owns:
- the operations of each shape and their mnemonics;
- the size of an instruction.

Does not own: machine words, and what an instruction does.

Aliases (`LSL`, `TST`, `CLR`, the `BRxx` family and the like) are not instructions of their own:
each is the instruction it is encoded as.
-/

namespace Avr.Isa

/-- Operations on two registers. -/
inductive BinaryOp where
  | add | adc | sub | sbc | and | or | eor | cp | cpc | cpse | mov | movw
  | mul | muls | mulsu | fmul | fmuls | fmulsu
deriving DecidableEq, Repr

/-- Operations on a register and a constant. -/
inductive ImmediateOp where
  | subi | sbci | andi | ori | cpi | ldi | adiw | sbiw
deriving DecidableEq, Repr

/-- Operations on one register. -/
inductive UnaryOp where
  | com | neg | inc | dec | lsr | ror | asr | swap | push | pop
deriving DecidableEq, Repr

/-- Operations on one bit of a register. -/
inductive RegisterBitOp where
  | bst | bld | sbrc | sbrs
deriving DecidableEq, Repr

/-- Operations on one bit of an IO register. -/
inductive IoBitOp where
  | cbi | sbi | sbic | sbis
deriving DecidableEq, Repr

/-- Operations without operands. -/
inductive ControlOp where
  | ijmp | icall | eijmp | eicall | ret | reti | spm | nop | sleep | break | wdr
deriving DecidableEq, Repr

/-- A decoded instruction.

Jump targets and offsets count words, as the hardware encodes them; an offset is relative to the
following instruction. Operands may hold values that do not fit their field. -/
inductive Instr where
  | binary (op : BinaryOp) (rd rr : Reg)
  | immediate (op : ImmediateOp) (rd : Reg) (k : UInt8)
  | unary (op : UnaryOp) (r : Reg)
  /-- Set or clear one flag of the status register. -/
  | flag (set : Bool) (s : UInt8)
  | registerBit (op : RegisterBitOp) (r : Reg) (b : UInt8)
  /-- Branch when a flag of the status register is set, or when it is clear. -/
  | branch (onSet : Bool) (s : UInt8) (k : Int)
  | relative (call : Bool) (k : Int)
  /-- Absolute jump or call. -/
  | absolute (call : Bool) (k : Nat)
  | input (rd : Reg) (a : UInt8)
  | output (a : UInt8) (rr : Reg)
  | ioBit (op : IoBitOp) (a b : UInt8)
  | load (rd : Reg) (pointer : Pointer) (mode : PointerMode)
  | store (pointer : Pointer) (mode : PointerMode) (rr : Reg)
  | loadDirect (rd : Reg) (k : UInt16)
  | storeDirect (k : UInt16) (rr : Reg)
  /-- Load from program memory, with or without the extension byte of `Z`. -/
  | loadProgram (extended : Bool) (rd : Reg) (increment : Bool)
  | control (op : ControlOp)
  /-- A word that is no supported instruction. -/
  | undefined (word : UInt16)
deriving DecidableEq, Repr

def BinaryOp.all : List BinaryOp :=
  [.add, .adc, .sub, .sbc, .and, .or, .eor, .cp, .cpc, .cpse, .mov, .movw,
    .mul, .muls, .mulsu, .fmul, .fmuls, .fmulsu]

def BinaryOp.mnemonic : BinaryOp → String
  | .add => "ADD" | .adc => "ADC" | .sub => "SUB" | .sbc => "SBC"
  | .and => "AND" | .or => "OR" | .eor => "EOR"
  | .cp => "CP" | .cpc => "CPC" | .cpse => "CPSE"
  | .mov => "MOV" | .movw => "MOVW"
  | .mul => "MUL" | .muls => "MULS" | .mulsu => "MULSU"
  | .fmul => "FMUL" | .fmuls => "FMULS" | .fmulsu => "FMULSU"

def ImmediateOp.all : List ImmediateOp :=
  [.subi, .sbci, .andi, .ori, .cpi, .ldi, .adiw, .sbiw]

def ImmediateOp.mnemonic : ImmediateOp → String
  | .subi => "SUBI" | .sbci => "SBCI" | .andi => "ANDI" | .ori => "ORI"
  | .cpi => "CPI" | .ldi => "LDI" | .adiw => "ADIW" | .sbiw => "SBIW"

def UnaryOp.all : List UnaryOp :=
  [.com, .neg, .inc, .dec, .lsr, .ror, .asr, .swap, .push, .pop]

def UnaryOp.mnemonic : UnaryOp → String
  | .com => "COM" | .neg => "NEG" | .inc => "INC" | .dec => "DEC" | .lsr => "LSR"
  | .ror => "ROR" | .asr => "ASR" | .swap => "SWAP" | .push => "PUSH" | .pop => "POP"

def RegisterBitOp.all : List RegisterBitOp := [.bst, .bld, .sbrc, .sbrs]

def RegisterBitOp.mnemonic : RegisterBitOp → String
  | .bst => "BST" | .bld => "BLD" | .sbrc => "SBRC" | .sbrs => "SBRS"

def IoBitOp.all : List IoBitOp := [.cbi, .sbi, .sbic, .sbis]

def IoBitOp.mnemonic : IoBitOp → String
  | .cbi => "CBI" | .sbi => "SBI" | .sbic => "SBIC" | .sbis => "SBIS"

def ControlOp.all : List ControlOp :=
  [.ijmp, .icall, .eijmp, .eicall, .ret, .reti, .spm, .nop, .sleep, .break, .wdr]

def ControlOp.mnemonic : ControlOp → String
  | .ijmp => "IJMP" | .icall => "ICALL" | .eijmp => "EIJMP" | .eicall => "EICALL"
  | .ret => "RET" | .reti => "RETI" | .spm => "SPM" | .nop => "NOP"
  | .sleep => "SLEEP" | .break => "BREAK" | .wdr => "WDR"

namespace Instr

/-- Whether the instruction occupies two words. -/
def isTwoWord : Instr → Bool
  | absolute .. | loadDirect .. | storeDirect .. => true
  | _ => false

/-- Size in bytes. -/
def size (i : Instr) : Nat :=
  if i.isTwoWord then 4 else 2

theorem size_eq_four_iff (i : Instr) : i.size = 4 ↔ i.isTwoWord = true := by
  unfold size
  split <;> simp_all

def mnemonic : Instr → String
  | binary op .. => op.mnemonic
  | immediate op .. => op.mnemonic
  | unary op _ => op.mnemonic
  | flag set _ => if set then "BSET" else "BCLR"
  | registerBit op .. => op.mnemonic
  | branch onSet .. => if onSet then "BRBS" else "BRBC"
  | relative call _ => if call then "RCALL" else "RJMP"
  | absolute call _ => if call then "CALL" else "JMP"
  | input .. => "IN"
  | output .. => "OUT"
  | ioBit op .. => op.mnemonic
  | load _ _ mode => if mode.isDisplaced then "LDD" else "LD"
  | store _ mode _ => if mode.isDisplaced then "STD" else "ST"
  | loadDirect .. => "LDS"
  | storeDirect .. => "STS"
  | loadProgram extended .. => if extended then "ELPM" else "LPM"
  | control op => op.mnemonic
  | undefined _ => ".word"

end Instr

end Avr.Isa

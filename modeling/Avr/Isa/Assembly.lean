import Avr.Isa.Instr

/-!
Contract: the text of an instruction.

Owns:
- operands and their order, as a listing shows them.

Offsets and jump targets are written in bytes.
-/

namespace Avr.Isa

open Avr.Text

def pointerOperand (pointer : Pointer) (mode : PointerMode) : String :=
  match mode with
  | .displaced offset =>
      if mode.isDisplaced then pointer.text ++ "+" ++ decimal offset.toNat else pointer.text
  | .postIncrement => pointer.text ++ "+"
  | .preDecrement => "-" ++ pointer.text

namespace Instr

/-- Operands as a listing shows them, in order. -/
def operands : Instr → List String
  | binary _ rd rr => [rd.text, rr.text]
  | immediate _ rd k => [rd.text, "0x" ++ hexUpper 2 k.toNat]
  | unary _ r => [r.text]
  | flag _ s => [decimal s.toNat]
  | registerBit _ r b => [r.text, decimal b.toNat]
  | branch _ s k => [decimal s.toNat, "." ++ signed (k * 2)]
  | relative _ k => ["." ++ signed (k * 2)]
  | absolute _ k => ["0x" ++ hexUpper 4 (k * 2)]
  | input rd a => [rd.text, "0x" ++ hexUpper 2 a.toNat]
  | output a rr => ["0x" ++ hexUpper 2 a.toNat, rr.text]
  | ioBit _ a b => ["0x" ++ hexUpper 2 a.toNat, decimal b.toNat]
  | load rd pointer mode => [rd.text, pointerOperand pointer mode]
  | store pointer mode rr => [pointerOperand pointer mode, rr.text]
  | loadDirect rd k => [rd.text, "0x" ++ hexUpper 4 k.toNat]
  | storeDirect k rr => ["0x" ++ hexUpper 4 k.toNat, rr.text]
  | loadProgram _ rd increment =>
      if rd = 0 ∧ increment = false then []
      else [rd.text, if increment then "Z+" else "Z"]
  | control _ => []
  | undefined word => ["0x" ++ hexUpper 4 word.toNat]

/-- The mnemonic, then the operands. -/
def text (i : Instr) : String :=
  match i.operands with
  | [] => i.mnemonic
  | operands => i.mnemonic ++ " " ++ String.intercalate ", " operands

end Instr

end Avr.Isa

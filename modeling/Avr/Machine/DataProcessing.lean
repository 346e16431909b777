import Avr.Alu
import Avr.Machine.State

/-!
Contract: instructions that only touch registers and flags.

Owns:
- the effect of operations on two registers, on a register and a constant, on one register, and on
  one bit of a register;
- their cost in cycles.

Skips, and pushes and pops, are not among them.
-/

namespace Avr.Machine

open Avr.Isa

variable {World : Type}

/-- Store a result and its flags. -/
def withResult (m : Machine World) (rd : Reg) (result : UInt8 × Status) : Machine World :=
  { m.setReg rd result.1 with status := result.2 }

/-- Take the flags of a result and drop the result itself. -/
def withFlags (m : Machine World) (result : UInt8 × Status) : Machine World :=
  { m with status := result.2 }

/-- Store a word and its flags in the pair starting at `low`. -/
def withWord (m : Machine World) (low : Reg) (result : UInt16 × Status) : Machine World :=
  { m.setPair low result.1 with status := result.2 }

/-- The effect of an operation on two registers. A comparing skip changes none. -/
def binary (op : BinaryOp) (rd rr : Reg) (m : Machine World) : Machine World :=
  let a := m.reg rd
  let b := m.reg rr
  let product (x y : Int) (fractional : Bool) : Machine World :=
    m.withWord 0 (Alu.multiply x y fractional m.status)
  match op with
  | .add => m.withResult rd (Alu.add a b false m.status)
  | .adc => m.withResult rd (Alu.add a b m.status.c m.status)
  | .sub => m.withResult rd (Alu.subtract false a b m.status)
  | .sbc => m.withResult rd (Alu.subtract true a b m.status)
  | .and => m.withResult rd (Alu.logic (a &&& b) m.status)
  | .or => m.withResult rd (Alu.logic (a ||| b) m.status)
  | .eor => m.withResult rd (Alu.logic (a ^^^ b) m.status)
  | .cp => m.withFlags (Alu.subtract false a b m.status)
  | .cpc => m.withFlags (Alu.subtract true a b m.status)
  | .cpse => m
  | .mov => m.setReg rd b
  | .movw => m.setPair rd (m.pair rr)
  | .mul => product a.toNat b.toNat false
  | .muls => product (Alu.signedByte a) (Alu.signedByte b) false
  | .mulsu => product (Alu.signedByte a) b.toNat false
  | .fmul => product a.toNat b.toNat true
  | .fmuls => product (Alu.signedByte a) (Alu.signedByte b) true
  | .fmulsu => product (Alu.signedByte a) b.toNat true

def binaryCycles : BinaryOp → Nat
  | .mul | .muls | .mulsu | .fmul | .fmuls | .fmulsu => 2
  | _ => 1

/-- The effect of an operation on a register and a constant. -/
def immediate (op : ImmediateOp) (rd : Reg) (k : UInt8) (m : Machine World) : Machine World :=
  let a := m.reg rd
  match op with
  | .subi => m.withResult rd (Alu.subtract false a k m.status)
  | .sbci => m.withResult rd (Alu.subtract true a k m.status)
  | .andi => m.withResult rd (Alu.logic (a &&& k) m.status)
  | .ori => m.withResult rd (Alu.logic (a ||| k) m.status)
  | .cpi => m.withFlags (Alu.subtract false a k m.status)
  | .ldi => m.setReg rd k
  | .adiw => m.withWord rd (Alu.addWord (m.pair rd) k m.status)
  | .sbiw => m.withWord rd (Alu.subtractWord (m.pair rd) k m.status)

def immediateCycles : ImmediateOp → Nat
  | .adiw | .sbiw => 2
  | _ => 1

/-- The effect of an operation on one register. Pushing and popping are not performed here. -/
def unary (op : UnaryOp) (r : Reg) (m : Machine World) : Machine World :=
  let a := m.reg r
  match op with
  | .com => m.withResult r (Alu.complement a m.status)
  | .neg => m.withResult r (Alu.subtract false 0 a m.status)
  | .inc => m.withResult r (Alu.increment a m.status)
  | .dec => m.withResult r (Alu.decrement a m.status)
  | .lsr => m.withResult r (Alu.shiftRight a false m.status)
  | .ror => m.withResult r (Alu.shiftRight a m.status.c m.status)
  | .asr => m.withResult r (Alu.shiftRight a (byteBit a 7) m.status)
  | .swap => m.setReg r (Alu.swap a)
  | .push | .pop => m

/-- Copy a register bit to `T`. -/
def storeBit (r : Reg) (b : UInt8) (m : Machine World) : Machine World :=
  { m with status := { m.status with t := byteBit (m.reg r) b.toNat } }

/-- Copy `T` to a register bit. -/
def loadBit (r : Reg) (b : UInt8) (m : Machine World) : Machine World :=
  m.setReg r (withBit (m.reg r) b.toNat m.status.t)

end Avr.Machine

import Avr.Status

/-!
Contract: the arithmetic of single bytes and its flags.

Owns:
- results and flags of additions, subtractions, logic, shifts and multiplications;
- results and flags of the word additions.

`C` and `H` are the carries out of bits 7 and 3, `V` is signed overflow, `N` and `Z` describe the
result, and `S` is `N` exclusive or `V`. The carry out of a bit is the majority of the two bits that
are added there and the complement of the bit that results.
-/

namespace Avr.Alu

/-- `N`, `Z` and `S` of a result, given the `V` already in the register. -/
def resultFlags (status : Status) (result : UInt8) : Status :=
  let n := byteBit result 7
  { status with n, z := result = 0, s := n ^^ status.v }

def add (a b : UInt8) (carry : Bool) (status : Status) : UInt8 × Status :=
  let result := a + b + UInt8.ofNat carry.toNat
  let carries := a &&& b ||| b &&& ~~~result ||| ~~~result &&& a
  let overflows := a &&& b &&& ~~~result ||| ~~~a &&& ~~~b &&& result
  let status := { status with
    h := byteBit carries 3
    c := byteBit carries 7
    v := byteBit overflows 7 }
  (result, resultFlags status result)

/-- Difference with a borrow in.

In a chain the borrow comes from `C`, and `Z` can only be cleared. -/
def subtract (chain : Bool) (a b : UInt8) (status : Status) : UInt8 × Status :=
  let borrow := chain && status.c
  let result := a - b - UInt8.ofNat borrow.toNat
  let borrows := ~~~a &&& b ||| b &&& result ||| result &&& ~~~a
  let overflows := a &&& ~~~b &&& ~~~result ||| ~~~a &&& b &&& result
  let flags := resultFlags { status with
    h := byteBit borrows 3
    c := byteBit borrows 7
    v := byteBit overflows 7 } result
  (result, { flags with z := flags.z && (!chain || status.z) })

def logic (result : UInt8) (status : Status) : UInt8 × Status :=
  (result, resultFlags { status with v := false } result)

/-- Ones' complement, which also sets `C`. -/
def complement (a : UInt8) (status : Status) : UInt8 × Status :=
  let (result, status) := logic (~~~a) status
  (result, { status with c := true })

def increment (a : UInt8) (status : Status) : UInt8 × Status :=
  let result := a + 1
  (result, resultFlags { status with v := a = 0x7F } result)

def decrement (a : UInt8) (status : Status) : UInt8 × Status :=
  let result := a - 1
  (result, resultFlags { status with v := a = 0x80 } result)

/-- Shift one bit to the right, with the given bit coming in at the top. -/
def shiftRight (a : UInt8) (top : Bool) (status : Status) : UInt8 × Status :=
  let result := a >>> 1 ||| UInt8.ofNat top.toNat <<< 7
  let c := byteBit a 0
  (result, resultFlags { status with c, v := byteBit result 7 ^^ c } result)

def swap (a : UInt8) : UInt8 :=
  a <<< 4 ||| a >>> 4

/-- A byte read in two's complement. -/
def signedByte (a : UInt8) : Int :=
  if a.toNat < 128 then a.toNat else (a.toNat : Int) - 256

/-- The low sixteen bits of a product, doubled for the fractional forms.

`C` is bit 15 of the product before doubling. -/
def multiply (a b : Int) (fractional : Bool) (status : Status) : UInt16 × Status :=
  let product := (a * b % 65536).toNat
  let result := UInt16.ofNat (if fractional then product * 2 else product)
  (result, { status with c := product.testBit 15, z := result = 0 })

/-- `N`, `Z` and `S` of a word, given the `V` already in the register. -/
def wordFlags (status : Status) (result : UInt16) : Status :=
  let n := result.toNat.testBit 15
  { status with n, z := result = 0, s := n ^^ status.v }

def addWord (a : UInt16) (k : UInt8) (status : Status) : UInt16 × Status :=
  let result := a + k.toUInt16
  let before := a.toNat.testBit 15
  let after := result.toNat.testBit 15
  (result, wordFlags { status with v := !before && after, c := before && !after } result)

def subtractWord (a : UInt16) (k : UInt8) (status : Status) : UInt16 × Status :=
  let result := a - k.toUInt16
  let before := a.toNat.testBit 15
  let after := result.toNat.testBit 15
  (result, wordFlags { status with v := before && !after, c := !before && after } result)

end Avr.Alu

import Avr.Isa.Decoding

/-!
Contract: program images.

Owns:
- the byte image of a sequence of words or instructions;
- reading bytes, words and instructions back from an image.
-/

namespace Avr

open Avr.Isa

/-- The low byte, then the high byte. -/
def wordBytes (word : UInt16) : List UInt8 :=
  [UInt8.ofNat word.toNat, UInt8.ofNat (word.toNat / 256)]

def wordOfBytes (low high : UInt8) : UInt16 :=
  UInt16.ofNat (low.toNat + high.toNat * 256)

theorem wordOfBytes_wordBytes (word : UInt16) :
    wordOfBytes (UInt8.ofNat word.toNat) (UInt8.ofNat (word.toNat / 256)) = word := by
  have bound := word.toNat_lt
  apply UInt16.toNat_inj.1
  simp [wordOfBytes]
  omega

theorem low_wordOfBytes (low high : UInt8) : UInt8.ofNat (wordOfBytes low high).toNat = low := by
  apply UInt8.toNat_inj.1
  simp [wordOfBytes]

theorem high_wordOfBytes (low high : UInt8) :
    UInt8.ofNat ((wordOfBytes low high).toNat / 256) = high := by
  have lowBound := low.toNat_lt
  have highBound := high.toNat_lt
  apply UInt8.toNat_inj.1
  simp [wordOfBytes]
  omega

def erasedByte : UInt8 := 0xFF

def erasedWord : UInt16 := 0xFFFF

structure Program where
  bytes : Array UInt8
deriving DecidableEq, Repr

namespace Program

def empty : Program := ⟨#[]⟩

def ofBytes (bytes : List UInt8) : Program :=
  ⟨bytes.toArray⟩

def ofWords (words : List UInt16) : Program :=
  ofBytes (words.flatMap wordBytes)

def ofInstrs (instrs : List Instr) : Program :=
  ofWords (instrs.flatMap Instr.words)

def size (p : Program) : Nat :=
  p.bytes.size

def byte? (p : Program) (address : Nat) : Option UInt8 :=
  p.bytes[address]?

/-- The word at a byte address, if all of it is part of the image. -/
def word? (p : Program) (address : Nat) : Option UInt16 :=
  match p.byte? address, p.byte? (address + 1) with
  | some low, some high => some (wordOfBytes low high)
  | _, _ => none

/-- The instruction at a word-aligned address of the image.

A second word past the end of the image counts as erased flash. -/
def instr? (p : Program) (address : Nat) : Option Instr :=
  if address % 2 = 0 then
    (p.word? address).map fun word =>
      Instr.decode word ((p.word? (address + 2)).getD erasedWord)
  else
    none

end Program

end Avr

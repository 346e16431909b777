import Avr.Proofs.Isa.Decoded
import Avr.Proofs.Isa.Variant

/-!
Contract: encoding and decoding invert each other.

Owns:
- what encoding gives back of a word, and decoding of an instruction.

Two words have a second spelling, which encoding prefers: a read of program memory into `R0`
without increment.
-/

namespace Avr.Isa

open Instr

theorem decode_lpm (next : UInt16) : decode 0x9004 next = .loadProgram false 0 false := rfl

theorem decode_elpm (next : UInt16) : decode 0x9006 next = .loadProgram true 0 false := rfl

/-- The word that encoding gives back for `word`. -/
def canonicalWord (word : UInt16) : UInt16 :=
  if word = 0x9004 then 0x95C8 else if word = 0x9006 then 0x95D8 else word

theorem secondWord?_decode (word next : UInt16) :
    (decode word next).secondWord? = if startsTwoWord word then some next else none := by
  split
  case isTrue double => exact twoWord_decode double next
  case isFalse single => exact (oneWord_decode (by simpa using single) next next).2

theorem encode_decode (word next : UInt16) :
    (decode word next).encode =
      (canonicalWord word, if startsTwoWord word then some next else none) := by
  refine Prod.ext ?_ (secondWord?_decode word next)
  change UInt16.ofNat (decode word next).firstWord = canonicalWord word
  unfold canonicalWord
  split
  case isTrue lpm =>
    rw [lpm, decode_lpm]
    rfl
  case isFalse notLpm =>
    split
    case isTrue elpm =>
      rw [elpm, decode_elpm]
      rfl
    case isFalse notElpm =>
      have regular : word.toNat ≠ 0x9004 ∧ word.toNat ≠ 0x9006 :=
        ⟨fun same => notLpm (UInt16.toNat_inj.mp same),
          fun same => notElpm (UInt16.toNat_inj.mp same)⟩
      rw [firstWord_decode next regular, UInt16.ofNat_toNat]

/-- Both spellings decode to the same instruction. -/
theorem decode_canonicalWord (word next : UInt16) :
    decode (canonicalWord word) next = decode word next := by
  unfold canonicalWord
  split
  case isTrue lpm =>
    rw [lpm]
    rfl
  case isFalse =>
    split
    case isTrue elpm =>
      rw [elpm]
      rfl
    case isFalse => rfl

theorem decode_eq_of_single {word : UInt16} (single : startsTwoWord word = false)
    (next other : UInt16) : decode word other = decode word next :=
  (oneWord_decode single other next).1

theorem decode_encode_decode (word next filler : UInt16) :
    decode (decode word next).encode.1 ((decode word next).encode.2.getD filler) =
      decode word next := by
  rw [encode_decode]
  dsimp only
  rw [decode_canonicalWord]
  cases starts : startsTwoWord word
  case true => rfl
  case false => exact decode_eq_of_single starts next filler

theorem isTwoWord_variant (i : Instr) : i.variant.isTwoWord = i.isTwoWord := by
  cases i <;> rfl

theorem isTwoWord_decode (word next : UInt16) :
    (decode word next).isTwoWord = startsTwoWord word := by
  rw [← secondWord?_isSome, secondWord?_decode]
  cases startsTwoWord word <;> rfl

/-- The second spelling of a read of program memory is never used. -/
theorem encode_loadProgram_ne (extended : Bool) (rd : Reg) (increment : Bool) :
    (loadProgram extended rd increment).encode.1.toNat ≠ if extended then 0x9006 else 0x9004 := by
  dsimp only [encode]
  rw [firstWord]
  split
  case isTrue => cases extended <;> decide
  case isFalse other =>
    have moves : increment = true ∨ rd.val ≠ 0 := by
      cases increment
      case true => exact .inl rfl
      case false => exact .inr fun zero => other ⟨Fin.ext zero, rfl⟩
    rw [UInt16.toNat_ofNat', placeOne]
    cases extended <;> cases increment <;>
      simp only [Bool.false_eq_true, false_or, if_true, if_false] at moves ⊢ <;> omega

theorem variant_decode_encode {i : Instr} (supported : ∀ w, i ≠ .undefined w) (next : UInt16) :
    (decode i.encode.1 next).variant = i.variant :=
  variant_decode_firstWord i next supported

theorem canonicalWord_encode {i : Instr} (supported : ∀ w, i ≠ .undefined w) :
    canonicalWord i.encode.1 = i.encode.1 := by
  have variant := variant_decode_encode supported 0
  unfold canonicalWord
  split
  case isTrue lpm =>
    rw [lpm, decode_lpm] at variant
    cases i with
    | loadProgram extended rd increment =>
      cases variant
      exact absurd (congrArg UInt16.toNat lpm) (encode_loadProgram_ne false rd increment)
    | _ => cases variant
  case isFalse =>
    split
    case isTrue elpm =>
      rw [elpm, decode_elpm] at variant
      cases i with
      | loadProgram extended rd increment =>
        cases variant
        exact absurd (congrArg UInt16.toNat elpm) (encode_loadProgram_ne true rd increment)
      | _ => cases variant
    case isFalse => rfl

theorem encode_decode_encode {i : Instr} (supported : ∀ w, i ≠ .undefined w) (filler : UInt16) :
    (decode i.encode.1 (i.encode.2.getD filler)).encode = i.encode := by
  have variant := variant_decode_encode supported (i.encode.2.getD filler)
  have starts : startsTwoWord i.encode.1 = i.isTwoWord := by
    rw [← isTwoWord_variant i, ← variant, isTwoWord_variant]
    exact (isTwoWord_decode _ _).symm
  rw [encode_decode, canonicalWord_encode supported, starts, ← secondWord?_isSome]
  refine Prod.ext rfl ?_
  dsimp only [encode]
  cases i.secondWord? <;> rfl

/-- Encoding gives back the words that an instruction was decoded from, save for the second
spelling of two of them, and decoding gives back an instruction that fits its fields. One that does
not fit is reduced to one of the same variant with the same words. -/
theorem codec_inverts_itself :
    (∀ word next : UInt16,
      let i := decode word next
      i.encode =
          (if word = 0x9004 then 0x95C8 else if word = 0x9006 then 0x95D8 else word,
            if startsTwoWord word then some next else none) ∧
        (i.size = 4 ↔ startsTwoWord word = true) ∧
        (startsTwoWord word = false → ∀ other, decode word other = i) ∧
        ∀ filler, decode i.encode.1 (i.encode.2.getD filler) = i) ∧
    ∀ i : Instr, (∀ word, i ≠ .undefined word) → ∀ filler,
      let j := decode i.encode.1 (i.encode.2.getD filler)
      j.variant = i.variant ∧ j.encode = i.encode ∧
        (j = i ↔ ∃ word next, decode word next = i) := by
  refine ⟨fun word next => ⟨encode_decode word next, ?_, ?_, decode_encode_decode word next⟩,
    fun i supported filler => ⟨variant_decode_encode supported _,
      encode_decode_encode supported filler, ?_⟩⟩
  · rw [size_eq_four_iff, isTwoWord_decode]
  · exact fun single other => decode_eq_of_single single next other
  · constructor
    · exact fun same => ⟨_, _, same⟩
    · rintro ⟨word, next, rfl⟩
      exact decode_encode_decode word next filler

/-- A pair that starts at an odd register has words, but is no instruction that they stand for. -/
theorem codec_inverts_itself_odd_pair :
    (∀ word, Instr.binary .movw 3 5 ≠ .undefined word) ∧
      (decode (Instr.binary .movw 3 5).encode.1 0).encode = (Instr.binary .movw 3 5).encode ∧
      ¬ ∃ word next, decode word next = .binary .movw 3 5 := by
  have supported : ∀ word, Instr.binary .movw 3 5 ≠ .undefined word := fun _ => nofun
  obtain ⟨-, same, fits⟩ := codec_inverts_itself.2 (.binary .movw 3 5) supported 0
  exact ⟨supported, same, fun decoded => absurd (fits.mpr decoded) (by decide)⟩

end Avr.Isa

import Avr.Proofs.Flash.Listing

/-!
Contract: an image reads the same before and after it is loaded.

Owns:
- flash that is erased, and its bytes once an image is loaded into it;
- the words of an image beside the words of flash, up to the ragged end of an image;
- the instructions of an image beside those of flash, and the images that are torn.

Where they part: an image takes a second word that is not all there for an erased word, while flash
reads the byte that is there beside an erased one.
-/

namespace Avr

open Avr.Isa Avr.Memory

/-- The image followed by erased bytes. -/
def Program.padded (p : Program) (position : Nat) : UInt8 :=
  (p.byte? position).getD erasedByte

/-- The instruction at an address takes two words, and the image ends in the middle of the second
one, behind a byte that is not an erased one. -/
structure Program.Tears (p : Program) (address : Nat) (i : Instr) : Prop where
  twoWord : i.isTwoWord = true
  ends : p.size = address + 3
  differs : p.byte? (address + 2) ≠ some erasedByte

instance (p : Program) (address : Nat) (i : Instr) : Decidable (p.Tears address i) :=
  decidable_of_iff
    (i.isTwoWord = true ∧ p.size = address + 3 ∧ p.byte? (address + 2) ≠ some erasedByte)
    ⟨fun ⟨twoWord, ends, differs⟩ => ⟨twoWord, ends, differs⟩,
      fun torn => ⟨torn.twoWord, torn.ends, torn.differs⟩⟩

/-- Flash of which every byte is erased, whatever its slots remember. -/
structure Flash.Erased (f : Flash) : Prop where
  slots : f.slots.size = f.size / 2
  bytes : f.Contains f.size fun _ => erasedByte

theorem Flash.erased_new (size : Nat) : (Flash.new size).Erased := by
  have length : (Flash.new size).size = size := (contains_new size).size_eq
  constructor
  · rw [length]
    exact Array.size_replicate
  · rw [length]
    exact contains_new size

/-! ### Words -/

namespace Program

theorem byte?_eq_none {p : Program} {position : Nat} (behind : p.size ≤ position) :
    p.byte? position = none :=
  Array.getElem?_eq_none behind

theorem exists_byte? {p : Program} {position : Nat} (inside : position < p.size) :
    ∃ byte, p.byte? position = some byte :=
  ⟨_, Array.getElem?_eq_getElem inside⟩

theorem word?_of_inside {p : Program} {address : Nat} (inside : address + 1 < p.size) :
    p.word? address = some (wordOfBytes (p.padded address) (p.padded (address + 1))) := by
  obtain ⟨low, atLow⟩ := exists_byte? (show address < p.size by omega)
  obtain ⟨high, atHigh⟩ := exists_byte? inside
  simp only [word?, padded, atLow, atHigh, Option.getD_some]

theorem word?_of_behind {p : Program} {address : Nat} (behind : p.size ≤ address + 1) :
    p.word? address = none := by
  unfold word?
  rw [byte?_eq_none behind]
  split
  · next missing => cases missing
  · rfl

end Program

namespace Flash

/-- Flash that holds an image reads the words of the image, and erased words behind it. A word of
which the image has only the first byte is read whole. -/
theorem wordOf_padded {p : Program} {size : Nat} (fits : p.size ≤ size) (index : Nat) :
    wordOf size p.padded index =
      (p.word? (2 * index)).getD
        (if p.size = 2 * index + 1 ∧ p.size < size then
          wordOfBytes (p.padded (2 * index)) erasedByte
        else erasedWord) := by
  unfold wordOf
  by_cases whole : 2 * index + 1 < p.size
  · rw [Program.word?_of_inside whole, if_pos (by omega), Option.getD_some]
  · have missing : p.padded (2 * index + 1) = erasedByte := by
      rw [Program.padded, Program.byte?_eq_none (by omega), Option.getD_none]
    rw [Program.word?_of_behind (by omega), Option.getD_none, missing]
    by_cases ragged : p.size = 2 * index + 1
    · simp only [ragged, true_and]
    · have nothing : p.padded (2 * index) = erasedByte := by
        rw [Program.padded, Program.byte?_eq_none (by omega), Option.getD_none]
      have apart : ¬ (p.size = 2 * index + 1 ∧ p.size < size) := fun both => ragged both.1
      rw [if_neg apart, nothing]
      exact ite_self _

theorem contains_load {f next : Flash} (erased : f.Erased) {p : Program}
    (fits : p.size ≤ f.size) (loads : f.load 0 p.bytes.toList = .ok next) :
    next.Contains f.size p.padded := by
  have room : 0 + p.bytes.toList.length ≤ f.segment.bytes.size := by
    rw [Nat.zero_add]
    exact fits
  have loaded : next = f.kept (f.load 0 p.bytes.toList) := by
    rw [loads]
    rfl
  intro position
  rw [loaded, kept_load, if_pos room, segment_invalidateFrom]
  change (Segment.overwrite f.segment.bytes 0 p.bytes.toList)[position]? = _
  have length : p.bytes.toList.length = p.size := rfl
  rw [getElem?_overwrite _ _ _ _ room, length]
  by_cases under : position < p.size
  · obtain ⟨byte, found⟩ := Program.exists_byte? under
    rw [if_pos (by omega), if_pos (by omega), Program.padded, found, Nat.sub_zero,
      Array.getElem?_toList]
    exact found
  · rw [if_neg (by omega), erased.bytes position, Program.padded,
      Program.byte?_eq_none (by omega)]
    rfl

end Flash

/-! ### Instructions -/

theorem wordOfBytes_erased {low : UInt8} :
    wordOfBytes low erasedByte = erasedWord ↔ low = erasedByte := by
  constructor
  · intro same
    rw [← low_wordOfBytes low erasedByte, same]
    rfl
  · intro same
    rw [same]
    rfl

/-- A second word that is erased but for its low byte makes a difference to two-word instructions
only. -/
theorem Isa.decode_ragged_eq_iff (word : UInt16) (low : UInt8) :
    Instr.decode word (wordOfBytes low erasedByte) = Instr.decode word erasedWord ↔
      ¬ ((Instr.decode word erasedWord).isTwoWord = true ∧ low ≠ erasedByte) := by
  rw [isTwoWord_decode]
  cases starts : startsTwoWord word with
  | false =>
      have alike := decode_eq_of_single starts erasedWord (wordOfBytes low erasedByte)
      simp only [alike, Bool.false_eq_true, false_and, not_false_eq_true]
  | true =>
      have operand (next : UInt16) : (Instr.decode word next).secondWord? = some next := by
        rw [secondWord?_decode, if_pos starts]
      rw [eq_self_iff_true, true_and, not_not, ← wordOfBytes_erased]
      constructor
      · intro same
        have words := congrArg Instr.secondWord? same
        rw [operand, operand] at words
        exact Option.some.inj words
      · intro same
        rw [same]

/-- An instruction of an image is decoded from a word that is all in the image. -/
theorem Program.exists_word?_of_instr? {p : Program} {address : Nat} {i : Instr}
    (reads : p.instr? address = some i) :
    ∃ index word, address = 2 * index ∧ 2 * index + 1 < p.size ∧
      p.word? (2 * index) = some word ∧
      i = Instr.decode word ((p.word? (2 * (index + 1))).getD erasedWord) := by
  unfold instr? at reads
  split at reads
  case isTrue even =>
    obtain ⟨word, found, rfl⟩ := Option.map_eq_some_iff.mp reads
    obtain ⟨index, rfl⟩ : ∃ index, address = 2 * index := ⟨address / 2, by omega⟩
    refine ⟨index, word, rfl, ?_, found, rfl⟩
    apply Nat.lt_of_not_le
    intro behind
    rw [word?_of_behind behind] at found
    cases found
  case isFalse odd => cases reads

namespace Flash

/-- Flash with an image decodes what the image does, but for a second word that is cut in two. -/
theorem decodeAt_of_image {f : Flash} {p : Program} {size index : Nat} {word : UInt16}
    (contains : f.Contains size p.padded) (fits : p.size ≤ size)
    (found : p.word? (2 * index) = some word) :
    f.decodeAt index =
      Instr.decode word ((p.word? (2 * (index + 1))).getD
        (if p.size = 2 * index + 3 ∧ p.size < size then
          wordOfBytes (p.padded (2 * index + 2)) erasedByte
        else erasedWord)) := by
  rw [contains.decodeAt_eq, instrOf, wordOf_padded fits, wordOf_padded fits, found,
    Option.getD_some]
  rfl

end Flash

namespace Machine

variable {World : Type}

/-- An image that fits is loaded into erased flash, and every instruction of the image is then read
from flash at the same address, unless the image tears it and flash goes on behind the image. A torn
instruction is read with the byte that the image has of its second word. -/
theorem image_reads_alike_once_loaded (image : Program) {m : Machine World}
    (erased : m.flash.Erased) (fits : image.size ≤ m.flash.size) :
    ∃ flash, (loadProgram image).run m = (.ok (), { m with flash }) ∧
      ∀ address i, image.instr? address = some i →
        (flash.instr address = .ok i ↔
          ¬ (image.Tears address i ∧ image.size < m.flash.size)) ∧
        (image.Tears address i → image.size < m.flash.size →
          ∃ word low, image.word? address = some word ∧
            image.byte? (address + 2) = some low ∧
            flash.instr address = .ok (Instr.decode word (wordOfBytes low erasedByte))) := by
  obtain ⟨flash, loads, sameSlots, -, agrees⟩ := m.flash.exists_load fits
  have contains := Flash.contains_load erased fits loads
  refine ⟨flash, ?_, ?_⟩
  · rw [loadProgram, Attempt.run_attempt, if_pos fits, loads]
    rfl
  · intro address i reads
    obtain ⟨index, word, rfl, inside, found, rfl⟩ := Program.exists_word?_of_instr? reads
    have read : flash.instr (2 * index) = .ok (flash.decodeAt index) := by
      apply Flash.instr_of_agrees
      · rw [sameSlots, erased.slots]
        omega
      · exact agrees index (Nat.lt_of_succ_lt inside)
    rw [read, Flash.decodeAt_of_image contains fits found]
    by_cases cut : image.size = 2 * index + 3 ∧ image.size < m.flash.size
    · obtain ⟨ends, more⟩ := cut
      obtain ⟨low, last⟩ := Program.exists_byte? (show 2 * index + 2 < image.size by omega)
      have missing : image.word? (2 * (index + 1)) = none :=
        Program.word?_of_behind (by omega)
      have padded : image.padded (2 * index + 2) = low := by
        rw [Program.padded, last, Option.getD_some]
      rw [missing, Option.getD_none, Option.getD_none, if_pos ⟨ends, more⟩, padded]
      constructor
      · rw [Except.ok.injEq, decode_ragged_eq_iff, not_iff_not]
        constructor
        · rintro ⟨twoWord, differs⟩
          exact ⟨⟨twoWord, ends, by simpa [last] using differs⟩, more⟩
        · rintro ⟨torn, -⟩
          exact ⟨torn.twoWord, by simpa [last] using torn.differs⟩
      · intro _ _
        exact ⟨word, low, found, last, rfl⟩
    · rw [if_neg cut]
      have whole : ¬ (image.Tears (2 * index)
          (Instr.decode word ((image.word? (2 * (index + 1))).getD erasedWord)) ∧
            image.size < m.flash.size) := by
        rintro ⟨torn, more⟩
        exact cut ⟨torn.ends, more⟩
      exact ⟨iff_of_true rfl whole, fun torn more => absurd ⟨torn, more⟩ whole⟩

/-- An image that ends behind the first word of a load of a byte, in flash of eight bytes. -/
theorem image_reads_alike_once_loaded_short :
    let image := Program.ofBytes [0x00, 0x90]
    let m : Machine Unit :=
      { Machine.new Part.atmega128 ⟨.known 0, false, false⟩ () with flash := Flash.new 8 }
    image.instr? 0 = some (.loadDirect 0 0xFFFF) ∧
      ∃ flash, (loadProgram image).run m = (.ok (), { m with flash }) ∧
        flash.instr 0 = .ok (.loadDirect 0 0xFFFF) := by
  intro image m
  have reads : image.instr? 0 = some (.loadDirect 0 0xFFFF) := by decide +kernel
  obtain ⟨flash, ran, alike⟩ :=
    image_reads_alike_once_loaded image (m := m) (Flash.erased_new 8) (by decide)
  exact ⟨reads, flash, ran, ((alike 0 _ reads).1).mpr (by decide +kernel)⟩

/-- An image that ends in the middle of the address that a byte is loaded from. The image takes the
address for an erased word, flash has its low byte. -/
theorem torn_image_reads_differently :
    let image := Program.ofBytes [0x00, 0x90, 0x6A]
    let m : Machine Unit :=
      { Machine.new Part.atmega128 ⟨.known 0, false, false⟩ () with flash := Flash.new 8 }
    image.instr? 0 = some (.loadDirect 0 0xFFFF) ∧
      (((loadProgram image).run m).2.flash.instr 0).toOption =
        some (.loadDirect 0 0xFF6A) := by
  intro image m
  exact ⟨by decide +kernel, by decide +kernel⟩

end Machine

end Avr

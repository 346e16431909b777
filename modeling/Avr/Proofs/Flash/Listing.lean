import Avr.Machine.Reset
import Avr.Proofs.Flash.Coherence
import Avr.Proofs.Isa.Codec
import Avr.Proofs.Machine.Respect
import Mathlib.Algebra.GroupWithZero.Nat

/-!
Contract: a program image holds the instructions that it was made of.

Owns:
- the listing of an image, read back one instruction after the other;
- where each of a list of instructions is placed, in words and in bytes;
- what an image and the flash it was loaded into read at these places.

Why slots do not matter: loading refreshes every slot under the image, so what a slot remembered
before is gone, whether it agreed with flash or not.
-/

namespace Avr

open Avr.Isa Avr.Memory

/-- Some words of memory stand for the instruction. -/
def Isa.Instr.Decodable (i : Instr) : Prop :=
  ∃ word next, Instr.decode word next = i

theorem Isa.Instr.size_pos (i : Instr) : 0 < i.size := by
  unfold Instr.size
  split <;> decide

/-- The instructions with the byte addresses at which they follow one another. -/
def placed (address : Nat) : List Instr → List (Nat × Instr)
  | [] => []
  | i :: rest => (address, i) :: placed (address + i.size) rest

/-! ### Words -/

/-- Words that decode to the instruction at an index, whatever lies behind them. -/
def HoldsAt (words : List UInt16) (index : Nat) (i : Instr) : Prop :=
  ∃ word, words[index]? = some word ∧
    ∀ filler, Instr.decode word (words[index + 1]?.getD filler) = i

theorem holdsAt_words {i : Instr} (decodable : i.Decodable) (front rest : List UInt16) :
    HoldsAt (front ++ (i.words ++ rest)) front.length i := by
  obtain ⟨word, next, rfl⟩ := decodable
  have back := decode_encode_decode word next
  refine ⟨(Instr.decode word next).encode.1, by simp [Instr.words], fun filler => ?_⟩
  rcases second : (Instr.decode word next).encode.2 with _ | operand
  · -- Without a second word the instruction does not look at the word behind it.
    have whatever := back
      ((front ++ ((Instr.decode word next).words ++ rest))[front.length + 1]?.getD filler)
    rwa [second] at whatever
  · have found : (front ++ ((Instr.decode word next).words ++ rest))[front.length + 1]? =
        some operand := by
      simp [Instr.words, second]
    have given := back filler
    rw [found]
    rwa [second] at given

theorem length_words_flatMap (instrs : List Instr) :
    2 * (instrs.flatMap Instr.words).length = (instrs.map Instr.size).sum := by
  induction instrs with
  | nil => rfl
  | cons i rest inductionHypothesis =>
      rw [List.flatMap_cons, List.length_append, Nat.mul_add, Instr.length_words,
        inductionHypothesis, List.map_cons, List.sum_cons]

/-- Every place is that of a word which the words hold the instruction at. -/
theorem holdsAt_placed {instrs : List Instr} (decodable : ∀ i ∈ instrs, i.Decodable)
    (front : List UInt16) {address : Nat} {i : Instr}
    (place : (address, i) ∈ placed (2 * front.length) instrs) :
    ∃ index, address = 2 * index ∧ HoldsAt (front ++ instrs.flatMap Instr.words) index i := by
  induction instrs generalizing front with
  | nil => cases place
  | cons first rest inductionHypothesis =>
      rw [List.flatMap_cons]
      rcases List.mem_cons.mp place with here | later
      · cases here
        exact ⟨_, rfl, holdsAt_words (decodable i List.mem_cons_self) front _⟩
      · have moved : 2 * front.length + first.size = 2 * (front ++ first.words).length := by
          rw [List.length_append, Nat.mul_add, Instr.length_words]
        rw [moved] at later
        rw [← List.append_assoc]
        exact inductionHypothesis (fun i member => decodable i (List.mem_cons_of_mem first member))
          (front ++ first.words) later

/-! ### Images -/

theorem getElem?_wordBytes (words : List UInt16) (index : Nat) :
    (words.flatMap wordBytes)[2 * index]? = words[index]?.map (fun word => UInt8.ofNat word.toNat) ∧
      (words.flatMap wordBytes)[2 * index + 1]? =
        words[index]?.map (fun word => UInt8.ofNat (word.toNat / 256)) := by
  induction words generalizing index with
  | nil => exact ⟨rfl, rfl⟩
  | cons word rest inductionHypothesis =>
      cases index with
      | zero => exact ⟨rfl, rfl⟩
      | succ index => exact inductionHypothesis index

theorem length_flatMap_wordBytes (words : List UInt16) :
    (words.flatMap wordBytes).length = 2 * words.length := by
  induction words with
  | nil => rfl
  | cons word rest inductionHypothesis =>
      rw [List.flatMap_cons, List.length_append, inductionHypothesis, List.length_cons]
      change 2 + 2 * rest.length = _
      omega

namespace Program

theorem size_ofWords (words : List UInt16) : (ofWords words).size = 2 * words.length :=
  length_flatMap_wordBytes words

theorem word?_ofWords (words : List UInt16) (index : Nat) :
    (ofWords words).word? (2 * index) = words[index]? := by
  obtain ⟨low, high⟩ := getElem?_wordBytes words index
  simp only [word?, byte?, ofWords, ofBytes, List.getElem?_toArray, low, high]
  cases words[index]? with
  | none => rfl
  | some word => exact congrArg some (wordOfBytes_wordBytes word)

theorem instr?_ofWords (words : List UInt16) (index : Nat) :
    (ofWords words).instr? (2 * index) =
      words[index]?.map fun word => Instr.decode word (words[index + 1]?.getD erasedWord) := by
  have even : 2 * index % 2 = 0 := Nat.mul_mod_right 2 index
  have next : 2 * index + 2 = 2 * (index + 1) := rfl
  rw [instr?, if_pos even, next, word?_ofWords, word?_ofWords]

theorem instr?_of_holdsAt {words : List UInt16} {index : Nat} {i : Instr}
    (holds : HoldsAt words index i) : (ofWords words).instr? (2 * index) = some i := by
  obtain ⟨word, found, decodes⟩ := holds
  rw [instr?_ofWords, found, Option.map_some, decodes]

theorem lt_size_of_instr? {p : Program} {address : Nat} {i : Instr}
    (found : p.instr? address = some i) : address < p.size := by
  unfold instr? at found
  split at found
  · obtain ⟨word, read, -⟩ := Option.map_eq_some_iff.mp found
    unfold word? at read
    split at read
    · next low _ inside _ => exact (Array.getElem?_eq_some_iff.mp inside).1
    · cases read
  · cases found

/-- The instructions from an address on, each behind the one before it, until none can be read. -/
def listingFrom (p : Program) (address : Nat) : List Instr :=
  match _found : p.instr? address with
  | none => []
  | some i => i :: p.listingFrom (address + i.size)
termination_by p.size - address
decreasing_by
  have inside := lt_size_of_instr? _found
  have moves := Isa.Instr.size_pos i
  omega

/-- The instructions of an image. -/
def listing (p : Program) : List Instr :=
  p.listingFrom 0

theorem listingFrom_of_none {p : Program} {address : Nat} (ends : p.instr? address = none) :
    p.listingFrom address = [] := by
  rw [listingFrom]
  split
  · rfl
  · next i found => rw [ends] at found; cases found

theorem listingFrom_of_some {p : Program} {address : Nat} {i : Instr}
    (reads : p.instr? address = some i) :
    p.listingFrom address = i :: p.listingFrom (address + i.size) := by
  rw [listingFrom]
  split
  · next found => rw [reads] at found; cases found
  · next other found => rw [reads] at found; cases found; rfl

theorem instr?_size_ofWords (words : List UInt16) :
    (ofWords words).instr? (ofWords words).size = none := by
  rw [size_ofWords, instr?_ofWords, List.getElem?_eq_none (Nat.le_refl _)]
  rfl

theorem listingFrom_ofWords {instrs : List Instr} (decodable : ∀ i ∈ instrs, i.Decodable)
    (front : List UInt16) :
    (ofWords (front ++ instrs.flatMap Instr.words)).listingFrom (2 * front.length) = instrs := by
  induction instrs generalizing front with
  | nil =>
      apply listingFrom_of_none
      rw [← size_ofWords, List.flatMap_nil, List.append_nil]
      exact instr?_size_ofWords front
  | cons i rest inductionHypothesis =>
      have first := holdsAt_words (decodable i List.mem_cons_self) front
        (rest.flatMap Instr.words)
      rw [List.flatMap_cons, listingFrom_of_some (instr?_of_holdsAt first)]
      have moved : 2 * front.length + i.size = 2 * (front ++ i.words).length := by
        rw [List.length_append, Nat.mul_add, Instr.length_words]
      rw [moved, ← List.append_assoc]
      exact congrArg (i :: ·) (inductionHypothesis
        (fun i member => decodable i (List.mem_cons_of_mem _ member)) (front ++ i.words))

end Program

/-! ### Flash -/

namespace Flash

/-- Loading at the start of flash refreshes every slot under what is loaded, also one that did not
agree with flash. -/
theorem exists_load (f : Flash) {values : List UInt8}
    (fits : values.length ≤ f.segment.bytes.size) :
    ∃ next, f.load 0 values = .ok next ∧ next.slots.size = f.slots.size ∧
      (∀ position < values.length, next.segment.bytes[position]? = values[position]?) ∧
      ∀ index, 2 * index < values.length → next.Agrees index := by
  have inside : 0 + values.length ≤ f.segment.bytes.size := by omega
  let written : Flash :=
    { f with segment :=
      { f.segment with bytes := Segment.overwrite f.segment.bytes 0 values } }
  have loads : f.load 0 values =
      .ok (written.invalidateFrom 0 ((0 + values.length + 1) / 2 + 1 - 0)) := by
    rw [load, Segment.load, if_pos inside]
    rfl
  refine ⟨_, loads, size_slots_invalidateFrom _ _ _, ?_, ?_⟩
  · intro position under
    rw [segment_invalidateFrom, getElem?_overwrite _ _ _ _ inside, if_pos (by omega), Nat.sub_zero]
  · intro index under
    refine (agreesOutside_invalidateFrom ?_ :
      AgreesOutside _ fun other => values.length ≤ 2 * other) index (by omega)
    -- Nothing is known of a slot yet: it is marked, or it lies under the bytes.
    intro other fresh
    exact absurd fresh (by omega)

theorem word_of_bytes {f : Flash} {words : List UInt16}
    (bytes : ∀ position < 2 * words.length,
      f.segment.bytes[position]? = (words.flatMap wordBytes)[position]?)
    {index : Nat} {word : UInt16} (found : words[index]? = some word) : f.word index = word := by
  have inside := (List.getElem?_eq_some_iff.mp found).1
  obtain ⟨low, high⟩ := getElem?_wordBytes words index
  rw [Flash.word, bytes _ (by omega), bytes _ (by omega), low, high, found]
  exact wordOfBytes_wordBytes word

theorem decodeAt_of_holdsAt {f : Flash} {words : List UInt16}
    (bytes : ∀ position < 2 * words.length,
      f.segment.bytes[position]? = (words.flatMap wordBytes)[position]?)
    {index : Nat} {i : Instr} (holds : HoldsAt words index i) : f.decodeAt index = i := by
  obtain ⟨word, found, decodes⟩ := holds
  have behind : f.word (index + 1) = words[index + 1]?.getD (f.word (index + 1)) := by
    rcases next : words[index + 1]? with _ | operand
    · rfl
    · exact word_of_bytes bytes next
  rw [decodeAt, word_of_bytes bytes found, behind, decodes]

end Flash

namespace Machine

variable {World : Type}

/-- Instructions that are assembled to an image are read back from it, in order and to the end. In
any flash with room for the image they are read at the same addresses once it is loaded, whatever
the flash contained and remembered before. -/
theorem assembly_is_lossless (instrs : List Instr) (decodable : ∀ i ∈ instrs, i.Decodable) :
    let image := Program.ofInstrs instrs
    image.size = (instrs.map Instr.size).sum ∧
      image.listing = instrs ∧
      image.instr? image.size = none ∧
      (∀ address i, (address, i) ∈ placed 0 instrs → image.instr? address = some i) ∧
      ∀ m : Machine World, m.flash.slots.size = m.flash.size / 2 → image.size ≤ m.flash.size →
        ∃ flash, (loadProgram image).run m = (.ok (), { m with flash }) ∧
          ∀ address i, (address, i) ∈ placed 0 instrs → flash.instr address = .ok i := by
  intro image
  have size : image.size = 2 * (instrs.flatMap Instr.words).length := Program.size_ofWords _
  have places {address : Nat} {i : Instr} (place : (address, i) ∈ placed 0 instrs) :
      ∃ index, address = 2 * index ∧ HoldsAt (instrs.flatMap Instr.words) index i :=
    holdsAt_placed decodable [] place
  refine ⟨size.trans (length_words_flatMap instrs), Program.listingFrom_ofWords decodable [],
    Program.instr?_size_ofWords _, fun address i place => ?_, fun m slots room => ?_⟩
  · obtain ⟨index, rfl, holds⟩ := places place
    exact Program.instr?_of_holdsAt holds
  · have length : image.bytes.toList.length = image.size := rfl
    obtain ⟨flash, loads, sameSlots, bytes, agrees⟩ := m.flash.exists_load (length ▸ room)
    refine ⟨flash, ?_, fun address i place => ?_⟩
    · rw [loadProgram, Attempt.run_attempt, if_pos room, loads]
      rfl
    · obtain ⟨index, rfl, holds⟩ := places place
      obtain ⟨word, found, -⟩ := id holds
      have inside := (List.getElem?_eq_some_iff.mp found).1
      rw [length, size] at bytes agrees
      rw [Flash.instr_of_agrees (by omega) (agrees index (by omega)),
        Flash.decodeAt_of_holdsAt bytes holds]

/-- A flash in which the word of a store is remembered as a jump, and which then takes the program
of that store. -/
theorem assembly_is_lossless_stale_slot :
    let instrs : List Instr := [.storeDirect 0x0100 0, .control .break]
    let stale : Flash :=
      { Flash.new 8 with slots := #[.ready (.absolute false 7), .empty, .empty, .empty] }
    let m : Machine Unit :=
      { Machine.new Part.atmega128 ⟨.known 0, false, false⟩ () with flash := stale }
    (∀ i ∈ instrs, i.Decodable) ∧ (Program.ofInstrs instrs).listing = instrs ∧
      ∃ flash, (loadProgram (Program.ofInstrs instrs)).run m = (.ok (), { m with flash }) ∧
        flash.instr 0 = .ok (.storeDirect 0x0100 0) ∧ flash.instr 4 = .ok (.control .break) := by
  intro instrs stale m
  have decodable : ∀ i ∈ instrs, i.Decodable := by
    intro i member
    simp only [instrs, List.mem_cons, List.not_mem_nil, or_false] at member
    rcases member with rfl | rfl
    · exact ⟨0x9200, 0x0100, rfl⟩
    · exact ⟨0x9598, 0, rfl⟩
  obtain ⟨-, listed, -, -, loads⟩ := assembly_is_lossless instrs decodable
  obtain ⟨flash, ran, reads⟩ := loads m (by decide) (by decide)
  exact ⟨decodable, listed, flash, ran, reads 0 _ (by decide), reads 4 _ (by decide)⟩

end Machine

end Avr

import Avr.Proofs.Machine.Unwatched

/-!
Contract: the stack of a machine, in SRAM that nobody watches.

Owns:
- machines that store both halves of the stack pointer;
- what it takes to push and to pop a byte, and the order in which a list of bytes comes back;
- return addresses on the stack, also after something else has happened meanwhile.

Does not own: what pushes and pops them.
-/

namespace Avr

theorem Io.Register.store_store (register : Io.Register) (value value' : UInt8) :
    (register.store value).store value' = register.store value' := by
  cases register with
  | bare kind | watched kind watches => cases kind <;> rfl

theorem Io.Register.store_self {register : Io.Register} {value : UInt8}
    (stores : register.stored? = some value) : register.store value = register := by
  cases register with
  | bare kind | watched kind watches => cases kind <;> cases stores <;> rfl

namespace Machine

open Avr.Io Avr.Isa Avr.Memory

variable {World : Type} {env : Environment World} {part : Part} {m next last : Machine World}

/-! ### The stack pointer -/

/-- Both halves of the stack pointer are stored at their numbers, and nobody watches memory. -/
structure Stacked (part : Part) (m : Machine World) : Prop where
  same : m.part = part
  unwatched : m.Unwatched
  window : m.io.size ≤ part.ioSize
  low : ∃ value, m.kindAt part.stackLow = some (.stackLow value)
  high : ∃ value, m.kindAt part.stackHigh = some (.stackHigh value)

theorem setStackPointer_setStackPointer (m : Machine World) (value value' : UInt16) :
    (m.setStackPointer value).setStackPointer value' = m.setStackPointer value' := by
  simp only [setStackPointer, setIoStored]
  congr 1
  apply Array.ext_getElem?
  intro register
  simp only [Array.getElem?_modify]
  split <;> split <;> cases m.io[register]? <;> simp [Register.store_store]

theorem setIoStored_ioStored {register : Nat} {kind : Kind} {value : UInt8}
    (installed : m.kindAt register = some kind) (stores : kind.stored? = some value) :
    m.setIoStored register (m.ioStored register) = m := by
  have stored : m.ioStored register = value := by
    rw [ioStored_eq, installed]
    change kind.stored?.getD 0 = value
    rw [stores]
    rfl
  rw [stored, setIoStored]
  obtain ⟨found, held, rfl⟩ := Option.map_eq_some_iff.mp installed
  have kept : m.io.modify register (Register.store · value) = m.io := by
    apply Array.ext_getElem?
    intro other
    rw [Array.getElem?_modify]
    split
    · next same =>
      rw [← same, held]
      exact congrArg some (Register.store_self stores)
    · rfl
  rw [kept]

namespace Stacked

theorem edit (stacked : m.Stacked part) (same : next.part = m.part) (io : next.io = m.io)
    (watches : next.data.watches = m.data.watches) : next.Stacked part where
  same := same.trans stacked.same
  unwatched address := by
    rw [Segment.watchesAt, watches]
    exact stacked.unwatched address
  window := io ▸ stacked.window
  low := by
    rw [kindAt, io]
    exact stacked.low
  high := by
    rw [kindAt, io]
    exact stacked.high

variable (stacked : m.Stacked part)
include stacked

theorem setIoStored (register : Nat) (value : UInt8) :
    (m.setIoStored register value).Stacked part where
  same := stacked.same
  unwatched := stacked.unwatched
  window := Nat.le_trans (Nat.le_of_eq (size_setIoStored m register value)) stacked.window
  low := by
    obtain ⟨old, installed⟩ := stacked.low
    rw [kindAt_setIoStored, installed]
    split
    · exact ⟨value, rfl⟩
    · exact ⟨old, rfl⟩
  high := by
    obtain ⟨old, installed⟩ := stacked.high
    rw [kindAt_setIoStored, installed]
    split
    · exact ⟨value, rfl⟩
    · exact ⟨old, rfl⟩

theorem setByteAt (address : Nat) (value : UInt8) : (m.setByteAt address value).Stacked part :=
  stacked.edit rfl rfl rfl

theorem setStackPointer (value : UInt16) : (m.setStackPointer value).Stacked part :=
  (stacked.setIoStored _ _).setIoStored _ _

theorem apart : part.stackLow ≠ part.stackHigh := by
  intro same
  obtain ⟨value, low⟩ := stacked.low
  obtain ⟨value', high⟩ := stacked.high
  rw [same, high] at low
  cases low

theorem stackPointer_setStackPointer (value : UInt16) :
    (m.setStackPointer value).stackPointer = value := by
  obtain ⟨old, low⟩ := stacked.low
  obtain ⟨old', high⟩ := (stacked.setIoStored part.stackLow (UInt8.ofNat value.toNat)).high
  have storedLow := ioStored_setIoStored_self (UInt8.ofNat value.toNat) low rfl
  have storedHigh := ioStored_setIoStored_self (UInt8.ofNat (value.toNat / 256)) high rfl
  rw [Machine.stackPointer, Machine.setStackPointer]
  change wordOfBytes (((m.setIoStored m.part.stackLow _).setIoStored m.part.stackHigh _).ioStored
    m.part.stackLow) (((m.setIoStored m.part.stackLow _).setIoStored m.part.stackHigh _).ioStored
    m.part.stackHigh) = value
  rw [stacked.same, storedHigh, ioStored_setIoStored_of_ne _ (Ne.symm stacked.apart), storedLow,
    wordOfBytes_wordBytes]

theorem setStackPointer_self : m.setStackPointer m.stackPointer = m := by
  obtain ⟨old, low⟩ := stacked.low
  obtain ⟨old', high⟩ := stacked.high
  rw [Machine.setStackPointer, stackPointer, low_wordOfBytes, high_wordOfBytes, stacked.same,
    setIoStored_ioStored low rfl, setIoStored_ioStored high rfl]

end Stacked

/-! ### One byte -/

/-- The address lies in SRAM. -/
def InSram (m : Machine World) (address : Nat) : Prop :=
  m.part.sramStart ≤ address ∧ address < m.data.bytes.size

namespace Stacked

variable (stacked : m.Stacked part)
include stacked

theorem ioIndex?_eq_none {address : Nat} (inside : m.InSram address) :
    m.ioIndex? address = none := by
  refine ioIndex?_eq_none_of_size_le (Nat.le_trans ?_ inside.1)
  have window := stacked.window
  rw [← stacked.same] at window
  exact Nat.add_le_add_left window 32

theorem readData_eq {address : UInt16} (inside : m.InSram address.toNat) :
    readData env address m = (m.byteAt address.toNat, m) := by
  rw [readData_of_unwatched stacked.unwatched, stacked.ioIndex?_eq_none inside]
  have found := Array.getElem?_eq_getElem inside.2
  change ((m.data.read env.toReporting address.toNat m.world).1,
    { m with world := (m.data.read env.toReporting address.toNat m.world).2 }) = _
  rw [Segment.read, byteAt, Array.getD_eq_getD_getElem?, found]
  rfl

theorem run_push (inside : m.InSram m.stackPointer.toNat) (value : UInt8) :
    (push env value).run m =
      (.ok (), (m.setByteAt m.stackPointer.toNat value).setStackPointer (m.stackPointer - 1)) := by
  have written : (writeData env m.stackPointer value).run m =
      (.ok (), m.setByteAt m.stackPointer.toNat value) := by
    rw [run_writeData_of_unwatched stacked.unwatched, stacked.ioIndex?_eq_none inside]
    exact congrArg (Prod.mk _) (writeMemory_inside inside.2 value)
  rw [push, Attempt.run_bind, Attempt.run_get]
  dsimp only
  rw [Attempt.run_bind, written]
  rfl

theorem pop_eq (inside : m.InSram (m.stackPointer + 1).toNat) :
    pop env m =
      (m.byteAt (m.stackPointer + 1).toNat, m.setStackPointer (m.stackPointer + 1)) := by
  rw [Machine.pop_eq, (stacked.setStackPointer _).readData_eq inside]
  rfl

end Stacked

/-- With the stack pointer just below a byte of SRAM, this byte is popped. -/
theorem Stacked.pop_below (stacked : m.Stacked part) {pointer : UInt16} {value : UInt8}
    (start : m.part.sramStart ≤ pointer.toNat)
    (held : m.data.bytes[pointer.toNat]? = some value) :
    pop env (m.setStackPointer (pointer - 1)) = (value, m.setStackPointer pointer) := by
  have above : (m.setStackPointer (pointer - 1)).stackPointer + 1 = pointer := by
    rw [stacked.stackPointer_setStackPointer, UInt16.sub_add_cancel]
  have inside : (m.setStackPointer (pointer - 1)).InSram
      ((m.setStackPointer (pointer - 1)).stackPointer + 1).toNat := by
    rw [above]
    exact ⟨start, (Array.getElem?_eq_some_iff.mp held).1⟩
  have byte : m.byteAt pointer.toNat = value := by
    rw [byteAt, Array.getD_eq_getD_getElem?, held]
    rfl
  rw [(stacked.setStackPointer _).pop_eq inside, above, setStackPointer_setStackPointer]
  exact congrArg (Prod.mk · _) byte

/-! ### Lists of bytes -/

/-- Pop a number of bytes; the first of the result is the one that was pushed last. -/
def popMany (env : Environment World) : (count : Nat) → Action World (List UInt8)
  | 0 => return []
  | count + 1 => do
    let value ← pop env
    return value :: (← popMany env count)

theorem popMany_cons (count : Nat) (m : Machine World) :
    popMany env (count + 1) m =
      ((pop env m).1 :: (popMany env count (pop env m).2).1,
        (popMany env count (pop env m).2).2) := by
  rw [popMany, Action.apply_bind, Action.apply_bind]
  rfl

/-- The last byte of all is popped after the others. -/
theorem popMany_succ (count : Nat) (m : Machine World) :
    popMany env (count + 1) m =
      ((popMany env count m).1 ++ [(pop env (popMany env count m).2).1],
        (pop env (popMany env count m).2).2) := by
  induction count generalizing m with
  | zero =>
      rw [popMany_cons]
      rfl
  | succ count inductionHypothesis =>
      rw [popMany_cons, inductionHypothesis, popMany_cons count m]
      rfl

/-- The next bytes to be pushed lie in SRAM. -/
def Room (m : Machine World) (count : Nat) : Prop :=
  ∀ address ≤ m.stackPointer.toNat, m.stackPointer.toNat < address + count → m.InSram address

namespace Room

variable {count : Nat} (room : m.Room (count + 1))
include room

theorem here : m.InSram m.stackPointer.toNat :=
  room _ (Nat.le_refl _) (by omega)

theorem floor : 32 ≤ m.stackPointer.toNat :=
  Nat.le_trans (Nat.le_add_right 32 m.part.ioSize) room.here.1

theorem toNat_sub_one : (m.stackPointer - 1).toNat = m.stackPointer.toNat - 1 := by
  have floor := room.floor
  exact UInt16.toNat_sub_of_le _ _ (UInt16.le_iff_toNat_le.mpr (by change 1 ≤ _; omega))

/-- Below a byte that was pushed there is room for the others. -/
theorem pushed (stacked : m.Stacked part) (value : UInt8) :
    ((m.setByteAt m.stackPointer.toNat value).setStackPointer (m.stackPointer - 1)).Room count := by
  intro address below within
  rw [(stacked.setByteAt _ _).stackPointer_setStackPointer, room.toNat_sub_one] at below within
  obtain ⟨start, size⟩ := room address (by omega) (by omega)
  exact ⟨start, Nat.lt_of_lt_of_eq size (size_setByteAt m _ value).symm⟩

end Room

/-- What is pushed comes back in the opposite order. Only the bytes below the stack pointer are
others then. -/
theorem Stacked.popMany_of_pushed (stacked : m.Stacked part) (values : List UInt8)
    (room : m.Room values.length) :
    ∃ pushed bytes, (values.forM (push env)).run m = (.ok (), pushed) ∧
      popMany env values.length pushed =
        (values.reverse, { m with data := { m.data with bytes } }) ∧
      ∀ address, ¬ (address ≤ m.stackPointer.toNat ∧
          m.stackPointer.toNat < address + values.length) →
        bytes[address]? = m.data.bytes[address]? := by
  induction values generalizing m with
  | nil => exact ⟨m, m.data.bytes, rfl, rfl, fun _ _ => rfl⟩
  | cons value rest inductionHypothesis =>
      let first := (m.setByteAt m.stackPointer.toNat value).setStackPointer (m.stackPointer - 1)
      have ran : (push env value).run m = (.ok (), first) := stacked.run_push room.here value
      have stacked' : first.Stacked part := (stacked.setByteAt _ _).setStackPointer _
      have pointer : first.stackPointer = m.stackPointer - 1 :=
        (stacked.setByteAt _ _).stackPointer_setStackPointer _
      have below : first.stackPointer.toNat + 1 = m.stackPointer.toNat := by
        have floor := room.floor
        rw [pointer, room.toNat_sub_one]
        omega
      obtain ⟨pushed, bytes, pushes, pops, kept⟩ :=
        inductionHypothesis stacked' (room.pushed stacked value)
      have held : bytes[m.stackPointer.toNat]? = some value := by
        rw [kept _ (by omega)]
        exact Array.getElem?_setIfInBounds_self_of_lt room.here.2
      refine ⟨pushed, bytes, ?_, ?_, fun address outside => ?_⟩
      · change (push env value >>= fun _ => rest.forM (push env)).run m = _
        rw [Attempt.run_bind, ran]
        exact pushes
      · rw [List.length_cons, popMany_succ, pops, List.reverse_cons]
        let target : Machine World := { m with data := { m.data with bytes } }
        change (rest.reverse ++ [(pop env (target.setStackPointer (m.stackPointer - 1))).1],
          (pop env (target.setStackPointer (m.stackPointer - 1))).2) = _
        have stackedTarget : target.Stacked part := stacked.edit rfl rfl rfl
        have restored : target.setStackPointer m.stackPointer = target :=
          stackedTarget.setStackPointer_self
        rw [stackedTarget.pop_below room.here.1 held, restored]
      · rw [kept address (by rw [List.length_cons] at outside; omega)]
        exact Array.getElem?_setIfInBounds_ne (by rw [List.length_cons] at outside; omega)

/-! ### Return addresses -/

/-- The machine with a return address pushed. -/
def withReturn (m : Machine World) (word : Nat) : Machine World :=
  ((m.setByteAt m.stackPointer.toNat (UInt8.ofNat word)).setByteAt (m.stackPointer - 1).toNat
    (UInt8.ofNat (word / 256))).setStackPointer (m.stackPointer - 2)

/-- The stack pointer and the two bytes that the next return takes are those of another machine. -/
structure HoldsReturnOf (called last : Machine World) : Prop where
  pointer : last.stackPointer = called.stackPointer
  high : last.data.bytes[(called.stackPointer + 1).toNat]? =
    called.data.bytes[(called.stackPointer + 1).toNat]?
  low : last.data.bytes[(called.stackPointer + 2).toNat]? =
    called.data.bytes[(called.stackPointer + 2).toNat]?

namespace Stacked

variable (stacked : m.Stacked part)
include stacked

theorem withReturn (word : Nat) : (m.withReturn word).Stacked part :=
  ((stacked.setByteAt _ _).setByteAt _ _).setStackPointer _

theorem run_pushReturn (room : m.Room 2) (word : Nat) :
    (pushReturn env word).run m = (.ok (), m.withReturn word) := by
  let first := (m.setByteAt m.stackPointer.toNat (UInt8.ofNat word)).setStackPointer
    (m.stackPointer - 1)
  have stackedFirst : first.Stacked part := (stacked.setByteAt _ _).setStackPointer _
  have pointer : first.stackPointer = m.stackPointer - 1 :=
    (stacked.setByteAt _ _).stackPointer_setStackPointer _
  have pushedLow : (push env (UInt8.ofNat word)).run m = (.ok (), first) :=
    stacked.run_push room.here _
  have pushedHigh : (push env (UInt8.ofNat (word / 256))).run first = _ :=
    stackedFirst.run_push (room.pushed stacked _).here _
  rw [pushReturn, Attempt.run_bind, pushedLow]
  dsimp only
  have twice : m.stackPointer - 1 - 1 = m.stackPointer - 2 := by grind
  rw [pushedHigh, pointer, twice]
  exact congrArg (Prod.mk _) (setStackPointer_setStackPointer
    ((m.setByteAt m.stackPointer.toNat (UInt8.ofNat word)).setByteAt (m.stackPointer - 1).toNat
      (UInt8.ofNat (word / 256))) _ _)

/-- A return takes the address that was pushed, if it still lies there. -/
theorem popReturn_of_held (room : m.Room 2) {word : Nat} (narrow : word < 65536)
    (stackedLast : last.Stacked part) (holds : HoldsReturnOf (m.withReturn word) last) :
    popReturn env last = (word, last.setStackPointer m.stackPointer) := by
  have pointer : (m.withReturn word).stackPointer = m.stackPointer - 2 :=
    ((stacked.setByteAt _ _).setByteAt _ _).stackPointer_setStackPointer _
  have below : (m.stackPointer - 1).toNat = m.stackPointer.toNat - 1 := room.toNat_sub_one
  have floor : 32 ≤ m.stackPointer.toNat := room.floor
  have inside : m.InSram (m.stackPointer - 1).toNat := room _ (by omega) (by omega)
  obtain ⟨samePointer, high, low⟩ := holds
  have twice : m.stackPointer - 1 - 1 = m.stackPointer - 2 := by grind
  have once : m.stackPointer - 2 + 1 = m.stackPointer - 1 := by grind
  rw [pointer] at samePointer
  rw [pointer, once] at high
  rw [pointer, UInt16.sub_add_cancel] at low
  have heldHigh : last.data.bytes[(m.stackPointer - 1).toNat]? =
      some (UInt8.ofNat (word / 256)) := by
    rw [high]
    refine Array.getElem?_setIfInBounds_self_of_lt ?_
    rw [size_setByteAt]
    exact inside.2
  have heldLow : last.data.bytes[m.stackPointer.toNat]? = some (UInt8.ofNat word) := by
    rw [low]
    refine (Array.getElem?_setIfInBounds_ne (by omega)).trans ?_
    exact Array.getElem?_setIfInBounds_self_of_lt room.here.2
  have samePart : last.part = m.part := stackedLast.same.trans stacked.same.symm
  have popHigh : pop env (last.setStackPointer (m.stackPointer - 1 - 1)) = _ :=
    stackedLast.pop_below (samePart ▸ inside.1) heldHigh
  have popLow : pop env (last.setStackPointer (m.stackPointer - 1)) = _ :=
    stackedLast.pop_below (samePart ▸ room.here.1) heldLow
  rw [twice, ← samePointer, stackedLast.setStackPointer_self] at popHigh
  rw [popReturn, Action.apply_bind, popHigh, Action.apply_bind, popLow]
  have value : (wordOfBytes (UInt8.ofNat word) (UInt8.ofNat (word / 256))).toNat = word := by
    have whole := wordOfBytes_wordBytes (UInt16.ofNat word)
    rw [UInt16.toNat_ofNat_of_lt' narrow] at whole
    rw [whole, UInt16.toNat_ofNat_of_lt' narrow]
  exact congrArg (Prod.mk · _) value

end Stacked

end Machine

end Avr

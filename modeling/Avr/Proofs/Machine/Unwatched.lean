import Avr.Proofs.Interrupt.Masked
import Avr.Proofs.Machine.Instructions

/-!
Contract: accesses of a program that nobody watches.

Owns:
- reads and writes of the data space without watches, and where its window of IO registers lies;
- what IO registers store, and what memory holds, after a write;
- accesses to IO registers that store a byte, and to the status register.
-/

namespace Avr.Machine

open Avr.Io Avr.Isa Avr.Memory

variable {World : Type} {env : Environment World} {m : Machine World}

/-! ### Accesses without watches -/

/-- Nobody watches the data space. -/
def Unwatched (m : Machine World) : Prop :=
  ∀ address, m.data.watchesAt address = none

theorem readData_of_unwatched (unwatched : m.Unwatched) (address : UInt16) :
    readData env address m =
      match m.ioIndex? address.toNat with
      | some register => readIo env register m
      | none => readMemory env address.toNat m := by
  rw [readData, Action.apply_get_bind]
  dsimp only
  rw [unwatched]
  change (match m.ioIndex? address.toNat with
    | some register => (do let value ← readIo env register; return value : Action World UInt8)
    | none => do let value ← readMemory env address.toNat; return value) m = _
  cases m.ioIndex? address.toNat <;> rfl

theorem run_writeData_of_unwatched (unwatched : m.Unwatched) (address : UInt16) (value : UInt8) :
    (writeData env address value).run m =
      match m.ioIndex? address.toNat with
      | some register => (writeIo env register value).run m
      | none => (.ok (), (writeMemory env address.toNat value m).2) := by
  rw [writeData, Attempt.run_bind, Attempt.run_get]
  dsimp only
  rw [unwatched]
  change (match m.ioIndex? address.toNat with
    | some register => (do writeIo env register value; return : Attempt World Unit)
    | none => do writeMemory env address.toNat value; return).run m = _
  cases m.ioIndex? address.toNat with
  | none => rfl
  | some register =>
      have bare := aroundAttempt_nil env (.beforeWrite address value) (.afterWrite address value)
        (writeIo env register value)
      exact congrFun (congrArg ExceptT.run bare) m

theorem ioIndex?_eq_some_iff {address register : Nat} :
    m.ioIndex? address = some register ↔ address = 32 + register ∧ register < m.io.size := by
  rw [ioIndex?]
  split
  · next inside =>
    have start : m.part.ioStart = 32 := rfl
    rw [Option.some.injEq]
    omega
  · next outside =>
    have start : m.part.ioStart = 32 := rfl
    simp only [reduceCtorEq, false_iff]
    omega

theorem ioIndex?_eq_none_of_size_le {address : Nat} (beyond : 32 + m.io.size ≤ address) :
    m.ioIndex? address = none := by
  rcases found : m.ioIndex? address with _ | register
  · rfl
  · have place := ioIndex?_eq_some_iff.mp found
    omega

theorem pop_eq (env : Environment World) (m : Machine World) :
    pop env m = readData env (m.stackPointer + 1) (m.setStackPointer (m.stackPointer + 1)) := by
  rw [pop, Action.apply_get_bind, Action.apply_bind]
  rfl

/-! ### What is stored -/

theorem ioStored_eq (m : Machine World) (register : Nat) :
    m.ioStored register = ((m.kindAt register).bind Kind.stored?).getD 0 := by
  rw [ioStored, kindAt]
  cases m.io[register]? <;> rfl

theorem ioStored_setIoStored_of_ne {register other : Nat} (value : UInt8)
    (apart : register ≠ other) :
    (m.setIoStored register value).ioStored other = m.ioStored other := by
  rw [ioStored_eq, ioStored_eq, kindAt_setIoStored, if_neg apart]

theorem ioStored_setIoStored_self {register : Nat} {kind : Kind} {old : UInt8} (value : UInt8)
    (installed : m.kindAt register = some kind) (stores : kind.stored? = some old) :
    (m.setIoStored register value).ioStored register = value := by
  rw [ioStored_eq, kindAt_setIoStored, if_pos rfl, installed]
  change ((kind.store value).stored?).getD 0 = value
  rw [Kind.stored?_store, stores]
  rfl

@[simp] theorem size_setIoStored (m : Machine World) (register : Nat) (value : UInt8) :
    (m.setIoStored register value).io.size = m.io.size := by
  simp [setIoStored]

/-! ### Accesses to memory -/

theorem writeMemory_eq (address : Nat) (value : UInt8) :
    (writeMemory env address value m).2 =
      { m with
        data := (m.data.write env.toReporting address value m.world).1
        world := (m.data.write env.toReporting address value m.world).2 } := rfl

theorem writeMemory_inside {address : Nat} (inside : address < m.data.bytes.size) (value : UInt8) :
    (writeMemory env address value m).2 = m.setByteAt address value := by
  rw [writeMemory_eq, Segment.write, if_pos inside]
  rfl

theorem writeMemory_outside (env : Environment World) {address : Nat}
    (outside : m.data.bytes.size ≤ address) (value : UInt8) :
    ∃ world, (writeMemory env address value m).2 = { m with world } := by
  rw [writeMemory_eq, Segment.write, if_neg (Nat.not_lt.mpr outside)]
  split
  · exact ⟨_, rfl⟩
  · exact ⟨_, rfl⟩

@[simp] theorem size_setByteAt (m : Machine World) (address : Nat) (value : UInt8) :
    (m.setByteAt address value).data.bytes.size = m.data.bytes.size :=
  Array.size_setIfInBounds

theorem setByteAt_outside {address : Nat} (outside : m.data.bytes.size ≤ address) (value : UInt8) :
    m.setByteAt address value = m := by
  rw [setByteAt, Array.setIfInBounds_eq_of_size_le outside]

/-- A byte of memory is read where it was written. -/
theorem read_setByteAt (address other : Nat) (value : UInt8) :
    ((m.setByteAt address value).data.read env.toReporting other m.world).1 =
      if other = address ∧ address < m.data.bytes.size then value
      else (m.data.read env.toReporting other m.world).1 := by
  rw [setByteAt, Segment.read, Segment.read]
  simp only [Array.getElem?_setIfInBounds]
  by_cases same : address = other
  · subst same
    by_cases inside : address < m.data.bytes.size
    · simp [inside]
    · simp [inside]
  · simp [same, Ne.symm same]

/-! ### Accesses to IO registers -/

theorem readIo_of_unwatched {register : Nat} (unwatched : m.ioWatches? register = none) :
    readIo env register m = readUnwatched env register m := by
  rw [readIo, Action.apply_get_bind, unwatched]

theorem run_writeIo_of_unwatched {register : Nat} (unwatched : m.ioWatches? register = none)
    (value : UInt8) :
    (writeIo env register value).run m = (writeUnwatched env register value).run m := by
  rw [writeIo, Attempt.run_bind, Attempt.run_get]
  dsimp only
  rw [unwatched]

section Registers

variable {register : Nat} {kind : Kind}
  (installed : m.io[register]?.map Register.kind = some kind)
include installed

theorem readUnwatched_of_storesOnly (stores : storesOnly kind = true) :
    readUnwatched env register m = (m.ioStored register, m) := by
  rw [readUnwatched, Action.apply_get_bind, ioStored_eq, kindAt, installed]
  cases kind with
  | plain | stackLow | stackHigh => rfl
  | _ => cases stores

theorem run_writeUnwatched_of_storesOnly (stores : storesOnly kind = true) (value : UInt8) :
    (writeUnwatched env register value).run m = (.ok (), m.setIoStored register value) := by
  rw [writeUnwatched, Attempt.run_bind, Attempt.run_get]
  simp only [installed]
  cases kind with
  | plain | stackLow | stackHigh => rfl
  | _ => cases stores

end Registers

theorem readUnwatched_of_status {register : Nat}
    (installed : m.io[register]?.map Register.kind = some .status) :
    readUnwatched env register m = (m.status.byte, m) := by
  rw [readUnwatched, Action.apply_get_bind, installed]
  rfl

theorem run_writeUnwatched_of_status {register : Nat}
    (installed : m.io[register]?.map Register.kind = some .status) (value : UInt8) :
    (writeUnwatched env register value).run m = (.ok (), (setStatus env value m).2) := by
  rw [writeUnwatched, Attempt.run_bind, Attempt.run_get]
  simp only [installed]
  rfl

end Avr.Machine

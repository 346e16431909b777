import Avr.Machine.IoAccess
import Avr.Proofs.Interrupt.Table
import Avr.Proofs.Machine.Respect

/-!
Contract: what a pair of registers and the interrupt table have to do with each other.

Owns:
- the two halves of a pair as one thing with a parameter: flags post their vectors, masks enable
  theirs;
- one operation on the table, as seen through either half;
- bits of a byte in which one is set or cleared.

Both halves are kept in step with the table by the same steps on different masks.
-/

namespace Avr

/-! ### Bits of a byte -/

theorem byteBit_withBit (value : UInt8) {n other : Nat} (below : n < 8) (below' : other < 8)
    (set : Bool) :
    byteBit (withBit value n set) other = if other = n then set else byteBit value other := by
  have one : ∀ n other : Fin 8, byteBit (1 <<< UInt8.ofNat n.val) other.val =
      decide (other = n) ∧ byteBit (~~~(1 <<< UInt8.ofNat n.val)) other.val =
        decide (other ≠ n) := by
    decide +kernel
  obtain ⟨single, rest⟩ := one ⟨n, below⟩ ⟨other, below'⟩
  simp only [Fin.mk.injEq, ne_eq] at single rest
  rw [withBit]
  split
  · rw [byteBit_or, single]
    by_cases same : other = n <;> simp [*]
  · rw [byteBit_and, rest]
    by_cases same : other = n <;> simp [*]

namespace Io

theorem FlagPair.mem_mapped {pair : FlagPair} {bit vector : Nat} :
    (bit, vector) ∈ pair.mapped ↔ pair.vectors[bit]? = some (some vector) := by
  simp only [mapped, List.mem_filterMap, Prod.exists, List.mem_zipIdx_iff_getElem?]
  constructor
  · rintro ⟨_ | found, index, position, maps⟩ <;> cases maps
    exact position
  · exact fun position => ⟨some vector, bit, position, rfl⟩

/-- A bit has one vector at most. -/
theorem FlagPair.vector_unique {pair : FlagPair} {bit vector vector' : Nat}
    (mapped : (bit, vector) ∈ pair.mapped) (mapped' : (bit, vector') ∈ pair.mapped) :
    vector = vector' := by
  have same := (mem_mapped.mp mapped).symm.trans (mem_mapped.mp mapped')
  simpa using same

theorem FlagPair.mem_changed {pair : FlagPair} {old new : UInt8} {bit vector : Nat} :
    (bit, vector) ∈ pair.changed old new ↔
      (bit, vector) ∈ pair.mapped ∧ byteBit old bit ≠ byteBit new bit := by
  simp [changed]

/-- The halves of a pair: flags post their vectors, masks enable theirs. -/
inductive Half where
  | flags
  | mask
deriving DecidableEq, Repr

namespace Half

open Interrupt

def register : Half → FlagPair → Nat
  | flags, pair => pair.flagRegister
  | mask, pair => pair.maskRegister

def kind : Half → UInt8 → FlagPair → Kind
  | flags => .flags
  | mask => .mask

theorem kind_injective {half half' : Half} {value value' : UInt8} {pair pair' : FlagPair}
    (same : half.kind value pair = half'.kind value' pair') :
    half = half' ∧ value = value' ∧ pair = pair' := by
  cases half <;> cases half' <;> cases same <;> exact ⟨rfl, rfl, rfl⟩

@[simp] theorem store_kind (half : Half) (old value : UInt8) (pair : FlagPair) :
    (half.kind old pair).store value = half.kind value pair := by
  cases half <;> rfl

@[simp] theorem stored?_kind (half : Half) (value : UInt8) (pair : FlagPair) :
    (half.kind value pair).stored? = some value := by
  cases half <;> rfl

/-- Whether the half drives a vector: posted by its flag, or enabled by its mask bit. -/
def drives : Half → Table → Nat → Bool
  | flags => Table.isPosted
  | mask => Table.isEnabled

/-- The operation on the table by which a half sets or clears a vector. -/
def change : Half → Bool → Table → Nat → Except Fault Table
  | flags, true => Table.post
  | flags, false => Table.unpost
  | mask, true => Table.enable
  | mask, false => Table.disable

theorem isChange (half : Half) (set : Bool) {t next : Table} {vector : Nat}
    (changed : half.change set t vector = .ok next) : t.Change next := by
  cases half <;> cases set
  · exact .unpost vector changed
  · exact .post vector changed
  · exact .disable vector changed
  · exact .enable vector changed

/-- A vector that has a slot is not refused. -/
theorem exists_change (half : Half) (set : Bool) {t : Table} {vector : Nat}
    (inside : vector < t.size) : ∃ next, half.change set t vector = .ok next := by
  have passes : t.check vector = .ok () := if_pos inside
  cases half <;> cases set <;>
    simp only [change, Table.post, Table.unpost, Table.enable, Table.disable, passes] <;>
    exact ⟨_, rfl⟩

theorem size_of_change (half : Half) (set : Bool) {t next : Table} {vector : Nat}
    (changed : half.change set t vector = .ok next) : next.size = t.size := by
  cases half <;> cases set <;> obtain ⟨_, rfl⟩ := Table.check_bind_eq_ok changed <;> rfl

theorem holds_or_single {t : Table} (sound : t.Sound) (mask : Mask) {vector : Nat}
    (inside : vector < t.size) (other : Nat) :
    t.holds (mask ||| single vector) other =
      if other = vector then true else t.holds mask other := by
  have slot : vector < 64 := Nat.lt_of_lt_of_le inside sound.size_le
  by_cases same : other = vector
  · simp [Table.holds, single, same, inside, slot]
  · simp [Table.holds, single, same, Ne.symm same]

theorem holds_and_not_single {t : Table} (sound : t.Sound) (mask : Mask) (vector other : Nat) :
    t.holds (mask &&& ~~~single vector) other =
      if other = vector then false else t.holds mask other := by
  by_cases inside : other < t.size
  · have slot : other < 64 := Nat.lt_of_lt_of_le inside sound.size_le
    by_cases same : other = vector
    · subst same
      simp [Table.holds, single, slot]
    · simp [Table.holds, single, slot, same]
  · simp [Table.holds, inside]

variable {half : Half} {set : Bool} {t next : Table} {vector : Nat}

/-- An operation changes one vector. -/
theorem drives_of_change (sound : t.Sound) (changed : half.change set t vector = .ok next)
    (other : Nat) :
    half.drives next other = if other = vector then set else half.drives t other := by
  cases half <;> cases set <;> obtain ⟨inside, rfl⟩ := Table.check_bind_eq_ok changed
  · exact holds_and_not_single sound t.posted vector other
  · exact holds_or_single sound t.posted inside other
  · exact holds_and_not_single sound t.enabled vector other
  · exact holds_or_single sound t.enabled inside other

/-- An operation of one half is nothing to the other. -/
theorem drives_of_change_other (changed : half.change set t vector = .ok next) {half' : Half}
    (different : half' ≠ half) (other : Nat) : half'.drives next other = half'.drives t other := by
  cases half <;> cases half' <;> first
    | exact absurd rfl different
    | cases set <;> obtain ⟨_, rfl⟩ := Table.check_bind_eq_ok changed <;> rfl

end Half

end Io

end Avr

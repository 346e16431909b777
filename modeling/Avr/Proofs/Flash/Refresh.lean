import Avr.Flash

/-!
Contract: which slots agree with the bytes of flash.

Owns:
- agreement of one slot with the two words it is decoded from;
- what a write to the bytes and what invalidation do to agreement.

Why agreement is stated outside of a set of slots: a write first changes the bytes, which leaves a
few slots stale, and then refreshes slot by slot until none of these is left.
-/

namespace Avr.Flash

open Avr.Isa Avr.Memory

def remembered? : Slot → Option Instr
  | .empty => none
  | .ready instr => some instr
  | .attached attachment => some attachment.instr

/-- A slot remembers nothing, or what its word decodes to. -/
def Agrees (f : Flash) (index : Nat) : Prop :=
  ∀ instr, remembered? (f.slot index) = some instr → instr = f.decodeAt index

def Coherent (f : Flash) : Prop :=
  ∀ index, f.Agrees index

/-- Every slot agrees, except perhaps those that are marked stale. -/
def AgreesOutside (f : Flash) (stale : Nat → Prop) : Prop :=
  ∀ index, ¬ stale index → f.Agrees index

theorem AgreesOutside.mono {f : Flash} {fewer more : Nat → Prop}
    (outside : f.AgreesOutside fewer) (le : ∀ index, fewer index → more index) :
    f.AgreesOutside more := by
  intro index fresh
  exact outside index fun isStale => fresh (le index isStale)

/-! ### Slots -/

@[simp] theorem segment_setSlot (f : Flash) (index : Nat) (slot : Slot) :
    (f.setSlot index slot).segment = f.segment := rfl

@[simp] theorem size_slots_setSlot (f : Flash) (index : Nat) (slot : Slot) :
    (f.setSlot index slot).slots.size = f.slots.size := by
  simp [setSlot]

@[simp] theorem decodeAt_setSlot (f : Flash) (index other : Nat) (slot : Slot) :
    (f.setSlot index slot).decodeAt other = f.decodeAt other := rfl

theorem slot_setSlot_other {f : Flash} {index other : Nat} (slot : Slot)
    (different : other ≠ index) : (f.setSlot index slot).slot other = f.slot other := by
  simp only [Flash.slot, setSlot]
  rw [Array.getD_eq_getD_getElem?, Array.getD_eq_getD_getElem?,
    Array.getElem?_setIfInBounds_ne (Ne.symm different)]

theorem slot_setSlot_self {f : Flash} {index : Nat} (slot : Slot)
    (inside : index < f.slots.size) : (f.setSlot index slot).slot index = slot := by
  simp [Flash.slot, setSlot, inside]

/-- A word past the last slot has the empty slot for good. -/
theorem slot_outside {f : Flash} {index : Nat} (outside : f.slots.size ≤ index) :
    f.slot index = .empty := by
  simp [Flash.slot, outside]

/-- Writing a slot that agrees keeps all others as they are. -/
theorem agreesOutside_setSlot {f : Flash} {index : Nat} {slot : Slot} {stale : Nat → Prop}
    (others : f.AgreesOutside fun other => stale other ∨ other = index)
    (agrees : ∀ instr, remembered? slot = some instr → instr = f.decodeAt index) :
    (f.setSlot index slot).AgreesOutside stale := by
  intro other fresh
  by_cases same : other = index
  · subst same
    intro instr remembers
    by_cases inside : other < f.slots.size
    · rw [slot_setSlot_self slot inside] at remembers
      exact agrees instr remembers
    · rw [slot_outside (by simpa using inside)] at remembers
      simp [remembered?] at remembers
  · intro instr remembers
    rw [slot_setSlot_other slot same] at remembers
    exact others other (by simp [fresh, same]) instr remembers

/-! ### Refreshing -/

@[simp] theorem segment_refresh (f : Flash) (index : Nat) :
    (f.refresh index).segment = f.segment := by
  unfold refresh
  split <;> rfl

@[simp] theorem size_slots_refresh (f : Flash) (index : Nat) :
    (f.refresh index).slots.size = f.slots.size := by
  unfold refresh
  split <;> simp

theorem agreesOutside_refresh {f : Flash} {index : Nat} {stale : Nat → Prop}
    (others : f.AgreesOutside fun other => stale other ∨ other = index) :
    (f.refresh index).AgreesOutside stale := by
  unfold refresh
  split
  · next empty =>
    intro other fresh
    by_cases same : other = index
    · subst same
      intro instr remembers
      simp [empty, remembered?] at remembers
    · exact others other (by simp [fresh, same])
  · apply agreesOutside_setSlot others
    simp [remembered?]
  · apply agreesOutside_setSlot others
    simp [remembered?]

@[simp] theorem segment_invalidate (f : Flash) (index : Nat) :
    (f.invalidate index).segment = f.segment := by
  unfold invalidate
  split <;> simp

@[simp] theorem size_slots_invalidate (f : Flash) (index : Nat) :
    (f.invalidate index).slots.size = f.slots.size := by
  unfold invalidate
  split <;> simp

/-- Invalidation of a word cures its slot and the slot before it. -/
theorem agreesOutside_invalidate {f : Flash} {index : Nat} {stale : Nat → Prop}
    (others : f.AgreesOutside fun other => stale other ∨ other = index ∨ other + 1 = index) :
    (f.invalidate index).AgreesOutside stale := by
  unfold invalidate
  split
  · next first =>
    apply agreesOutside_refresh
    apply others.mono
    intro other isStale
    rcases isStale with old | here | before
    · exact .inl old
    · exact .inr (here.trans first)
    · omega
  · next positive =>
    apply agreesOutside_refresh
    apply agreesOutside_refresh
    apply others.mono
    intro other isStale
    rcases isStale with old | here | before
    · exact .inl (.inl old)
    · exact .inl (.inr here)
    · exact .inr (by omega)

@[simp] theorem segment_invalidateFrom (f : Flash) (first count : Nat) :
    (f.invalidateFrom first count).segment = f.segment := by
  induction count generalizing f first with
  | zero => rfl
  | succ count inductionHypothesis =>
      rw [invalidateFrom, inductionHypothesis, segment_invalidate]

@[simp] theorem size_slots_invalidateFrom (f : Flash) (first count : Nat) :
    (f.invalidateFrom first count).slots.size = f.slots.size := by
  induction count generalizing f first with
  | zero => rfl
  | succ count inductionHypothesis =>
      rw [invalidateFrom, inductionHypothesis, size_slots_invalidate]

/-- Invalidation of consecutive words cures their slots and the slot before them. -/
theorem agreesOutside_invalidateFrom {f : Flash} {first count : Nat} {stale : Nat → Prop}
    (others : f.AgreesOutside fun other =>
      stale other ∨ (0 < count ∧ first ≤ other + 1 ∧ other < first + count)) :
    (f.invalidateFrom first count).AgreesOutside stale := by
  induction count generalizing f first with
  | zero =>
      apply others.mono
      intro other isStale
      rcases isStale with old | range
      · exact old
      · omega
  | succ count inductionHypothesis =>
      rw [invalidateFrom]
      -- The first word cures its slot and the slot before; the others are left to the rest.
      apply inductionHypothesis
      apply agreesOutside_invalidate
      apply others.mono
      intro other isStale
      rcases isStale with old | range
      · exact .inl (.inl old)
      · by_cases here : other = first ∨ other + 1 = first
        · exact .inr here
        · exact .inl (.inr (by omega))

end Avr.Flash

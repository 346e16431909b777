import Avr.Proofs.Flash.Refresh

/-!
Contract: breakpoints stay where they are while a program runs.

Owns:
- breakpoints under a change of one slot, under writes and under fetches;
- flash without breakpoints, which never pauses a fetch.
-/

namespace Avr.Flash

/-- Whether a breakpoint is attached to the instruction of a slot. -/
def slotBreaks : Slot → Bool
  | .attached attachment => attachment.breakpoint
  | _ => false

/-- No word has a breakpoint. -/
def Unbroken (f : Flash) : Prop :=
  ∀ address, f.hasBreakpoint address = false

variable {f next : Flash}

theorem hasBreakpoint_of_wordIndex {address index : Nat} (found : f.wordIndex address = .ok index) :
    f.hasBreakpoint address = slotBreaks (f.slot index) := by
  unfold hasBreakpoint
  rw [found]
  dsimp only
  cases f.slot index <;> rfl

theorem unbroken_iff : f.Unbroken ↔ f.slots.all (fun slot => !slotBreaks slot) = true := by
  rw [Array.all_eq_true]
  constructor
  · intro unbroken index inside
    have found : f.wordIndex (2 * index) = .ok index := by
      unfold wordIndex
      rw [if_pos (Nat.mul_mod_right 2 index), Nat.mul_div_cancel_left index (by decide),
        if_pos inside]
    have passes := unbroken (2 * index)
    rw [hasBreakpoint_of_wordIndex found, slot, Array.getD_eq_getD_getElem?,
      Array.getElem?_eq_getElem inside, Option.getD_some] at passes
    rw [passes]
    rfl
  · intro all address
    cases found : f.wordIndex address with
    | error fault =>
        unfold hasBreakpoint
        rw [found]
    | ok index =>
        rw [hasBreakpoint_of_wordIndex found]
        by_cases inside : index < f.slots.size
        · rw [slot, Array.getD_eq_getD_getElem?, Array.getElem?_eq_getElem inside,
            Option.getD_some]
          simpa using all index inside
        · rw [slot_outside (Nat.not_lt.mp inside)]
          rfl

instance (f : Flash) : Decidable f.Unbroken :=
  decidable_of_iff _ unbroken_iff.symm

theorem Unbroken.of_slots (unbroken : f.Unbroken) (size : next.slots.size = f.slots.size)
    (slots : ∀ index, slotBreaks (next.slot index) = slotBreaks (f.slot index)) :
    next.Unbroken := by
  intro address
  have words : next.wordIndex address = f.wordIndex address := by
    unfold wordIndex
    rw [size]
  have before := unbroken address
  cases found : f.wordIndex address with
  | error fault =>
      unfold hasBreakpoint
      rw [words, found]
  | ok index =>
      rw [hasBreakpoint_of_wordIndex found] at before
      rw [hasBreakpoint_of_wordIndex (words.trans found), slots, before]

/-- A slot may be replaced by one that breaks if and only if it did. -/
theorem Unbroken.setSlot (unbroken : f.Unbroken) {index : Nat} {slot : Slot}
    (same : slotBreaks slot = slotBreaks (f.slot index)) : (f.setSlot index slot).Unbroken := by
  apply unbroken.of_slots (size_slots_setSlot f index slot)
  intro other
  by_cases here : other = index
  · subst here
    by_cases inside : other < f.slots.size
    · rw [slot_setSlot_self slot inside, same]
    · have outside : (f.setSlot other slot).slots.size ≤ other := by
        rw [size_slots_setSlot]
        exact Nat.not_lt.mp inside
      rw [slot_outside outside, slot_outside (Nat.not_lt.mp inside)]
  · rw [slot_setSlot_other slot here]

/-! ### Writes -/

theorem Unbroken.refresh (unbroken : f.Unbroken) (index : Nat) : (f.refresh index).Unbroken := by
  unfold Flash.refresh
  split
  · exact unbroken
  · next instr found =>
    apply unbroken.setSlot
    rw [found]
    rfl
  · next attachment found =>
    apply unbroken.setSlot
    rw [found]
    rfl

theorem Unbroken.invalidate (unbroken : f.Unbroken) (index : Nat) :
    (f.invalidate index).Unbroken := by
  unfold Flash.invalidate
  split
  · exact unbroken.refresh 0
  · exact (unbroken.refresh (index - 1)).refresh index

theorem Unbroken.invalidateFrom (unbroken : f.Unbroken) (first count : Nat) :
    (f.invalidateFrom first count).Unbroken := by
  induction count generalizing f first with
  | zero => exact unbroken
  | succ count inductionHypothesis => exact inductionHypothesis (unbroken.invalidate first) _

theorem Unbroken.load (unbroken : f.Unbroken) {offset : Nat} {values : List UInt8}
    (loads : f.load offset values = .ok next) : next.Unbroken := by
  unfold Flash.load at loads
  cases stored : f.segment.load offset values with
  | error fault =>
      rw [stored] at loads
      cases loads
  | ok segment =>
      rw [stored] at loads
      cases loads
      have written : ({ f with segment } : Flash).Unbroken := unbroken
      exact written.invalidateFrom _ _

/-! ### Fetches -/

theorem Unbroken.fetch (unbroken : f.Unbroken) {pc : Nat} {fetched : Fetched}
    (fetches : f.fetch pc = .ok (fetched, next)) : next.Unbroken ∧ fetched ≠ .paused := by
  unfold Flash.fetch at fetches
  cases found : f.wordIndex pc with
  | error fault =>
      rw [found] at fetches
      cases fetches
  | ok index =>
      have before := unbroken pc
      rw [hasBreakpoint_of_wordIndex found] at before
      rw [found] at fetches
      dsimp only [bind, Except.bind] at fetches
      cases slot : f.slot index with
      | empty =>
          rw [slot] at fetches
          cases fetches
          exact ⟨unbroken.setSlot (by rw [slot]; rfl), nofun⟩
      | ready instr =>
          rw [slot] at fetches
          cases fetches
          exact ⟨unbroken, nofun⟩
      | attached attachment =>
          rw [slot] at fetches before
          have passes : attachment.breakpoint = false := before
          simp only [passes, Bool.false_and, Bool.false_eq_true, if_false] at fetches
          cases fetches
          exact ⟨unbroken.setSlot (by rw [slot]; exact passes.symm), nofun⟩

end Avr.Flash

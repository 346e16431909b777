import Avr.Proofs.Flash.Coherence
import Avr.Proofs.Machine.Mirror

/-!
Contract: what flash remembers of instructions cannot be told from outside.

Owns:
- flash without its remembered instructions: the bytes, and what is attached to each word;
- every operation on flash, which does the same to a flash and to one that remembers nothing;
- flashes that remember differently, under the same operation.

An attached instruction is kept beside what is attached to it. It is right if the flash is coherent,
so the instructions that a flash remembers are the only difference that matters, and none comes of it.
-/

namespace Avr

namespace Flash

open Avr.Isa Avr.Memory

/-- A slot that remembers nothing but what is attached to it. -/
def shownSlot : Slot → Slot
  | .ready _ => .empty
  | slot => slot

/-- The flash without the instructions that it remembers. -/
def shown (f : Flash) : Flash :=
  { f with slots := f.slots.map shownSlot }

variable {f g : Flash}

/-! ### Slots -/

theorem slot_shown (f : Flash) (index : Nat) : f.shown.slot index = shownSlot (f.slot index) := by
  simp only [slot, shown, Array.getD_eq_getD_getElem?, Array.getElem?_map]
  cases f.slots[index]? <;> rfl

theorem size_slots_shown (f : Flash) : f.shown.slots.size = f.slots.size := by
  simp [shown]

theorem decodeAt_shown (f : Flash) (index : Nat) : f.shown.decodeAt index = f.decodeAt index := rfl

theorem wordIndex_shown (f : Flash) (address : Nat) :
    f.shown.wordIndex address = f.wordIndex address := by
  rw [wordIndex, wordIndex, size_slots_shown]

theorem shown_setSlot (f : Flash) (index : Nat) (slot : Slot) :
    (f.setSlot index slot).shown = f.shown.setSlot index (shownSlot slot) := by
  rw [shown, setSlot, shown, setSlot]
  congr 1
  apply Array.ext_getElem?
  intro other
  simp only [Array.getElem?_map, Array.getElem?_setIfInBounds, Array.size_map]
  split
  · split <;> rfl
  · rfl

theorem setSlot_slot (f : Flash) (index : Nat) : f.setSlot index (f.slot index) = f := by
  rw [setSlot]
  congr 1
  apply Array.ext_getElem?
  intro other
  rw [Array.getElem?_setIfInBounds]
  split
  · next here =>
    subst here
    split
    · next inside => simp [slot, inside]
    · next outside => simp [Nat.not_lt.mp outside]
  · rfl

/-- To remember something in a slot with nothing attached, or to forget it, does not show. -/
theorem shown_setSlot_of_empty {index : Nat} {slot : Slot} (before : shownSlot (f.slot index) = .empty)
    (after : shownSlot slot = .empty) : (f.setSlot index slot).shown = f.shown := by
  rw [shown_setSlot, after, ← before, ← slot_shown, setSlot_slot]

/-- The attachment of a word, or the one that it would get. -/
theorem Coherent.attachment_shown (coherent : f.Coherent) (index : Nat) :
    f.shown.attachment index = f.attachment index := by
  rw [Flash.attachment, Flash.attachment, slot_shown]
  cases found : f.slot index with
  | empty => rfl
  | attached attachment => rfl
  | ready instr =>
      have right : instr = f.decodeAt index := coherent index instr (by rw [found]; rfl)
      simp only [shownSlot, decodeAt_shown, right]

/-! ### Writes -/

theorem shown_refresh (f : Flash) (index : Nat) : (f.refresh index).shown = f.shown.refresh index := by
  rw [refresh, refresh, slot_shown]
  cases found : f.slot index with
  | empty => rfl
  | ready instr => exact shown_setSlot_of_empty (by rw [found]; rfl) rfl
  | attached attachment => exact shown_setSlot f index _

theorem shown_invalidate (f : Flash) (index : Nat) :
    (f.invalidate index).shown = f.shown.invalidate index := by
  rw [invalidate, invalidate]
  split
  · exact shown_refresh f 0
  · rw [shown_refresh, shown_refresh]

theorem shown_invalidateFrom (f : Flash) (first count : Nat) :
    (f.invalidateFrom first count).shown = f.shown.invalidateFrom first count := by
  induction count generalizing f first with
  | zero => rfl
  | succ count inductionHypothesis =>
      rw [invalidateFrom, invalidateFrom, inductionHypothesis, shown_invalidate]

theorem shown_set (f : Flash) (address : Nat) (value : UInt8) :
    (f.set address value).map shown = f.shown.set address value := by
  rw [Flash.set, Flash.set]
  change _ = (f.segment.set address value >>= _)
  cases f.segment.set address value with
  | error fault => rfl
  | ok segment => exact congrArg Except.ok (shown_invalidate { f with segment } (address / 2))

theorem shown_load (f : Flash) (offset : Nat) (values : List UInt8) :
    (f.load offset values).map shown = f.shown.load offset values := by
  rw [Flash.load, Flash.load]
  change _ = (f.segment.load offset values >>= _)
  cases f.segment.load offset values with
  | error fault => rfl
  | ok segment => exact congrArg Except.ok (shown_invalidateFrom { f with segment } _ _)

/-! ### What is attached -/

theorem Coherent.shown_insertProbe (coherent : f.Coherent) (address : Nat) (probe : Handle) :
    (f.insertProbe address probe).map shown = f.shown.insertProbe address probe := by
  rw [Flash.insertProbe, Flash.insertProbe, wordIndex_shown]
  cases f.wordIndex address with
  | error fault => rfl
  | ok index =>
      change Except.ok _ = Except.ok _
      rw [shown_setSlot, coherent.attachment_shown]
      rfl

theorem Coherent.shown_insertBreakpoint (coherent : f.Coherent) (address : Nat) :
    (f.insertBreakpoint address).map shown = f.shown.insertBreakpoint address := by
  rw [Flash.insertBreakpoint, Flash.insertBreakpoint, wordIndex_shown]
  cases f.wordIndex address with
  | error fault => rfl
  | ok index =>
      change Except.ok _ = Except.ok _
      rw [shown_setSlot, coherent.attachment_shown]
      rfl

theorem shown_shown (f : Flash) : f.shown.shown = f.shown := by
  have twice : shownSlot ∘ shownSlot = shownSlot := by
    funext slot
    cases slot <;> rfl
  rw [shown, shown, Array.map_map, twice]

/-- The flash after a change of what is attached to a word, if anything is, and what comes of it. -/
def detach (f : Flash) (address : Nat) (change : Attachment → Attachment × Bool) : Flash × Bool :=
  match f.wordIndex address with
  | .error _ => (f, false)
  | .ok index =>
    match f.slot index with
    | .attached attachment =>
      (f.setSlot index (settle (change attachment).1), (change attachment).2)
    | _ => (f, false)

theorem removeProbe_eq (f : Flash) (address : Nat) (probe : Handle) :
    f.removeProbe address probe = f.detach address fun attachment =>
      ({ attachment with probes := (HandleList.remove attachment.probes probe).1 },
        (HandleList.remove attachment.probes probe).2) := rfl

theorem removeBreakpoint_eq (f : Flash) (address : Nat) :
    f.removeBreakpoint address = f.detach address fun attachment =>
      ({ attachment with breakpoint := false, fired := false }, attachment.breakpoint) := rfl

theorem detach_shown (f : Flash) (address : Nat) (change : Attachment → Attachment × Bool) :
    ((f.shown.detach address change).1.shown, (f.shown.detach address change).2) =
      ((f.detach address change).1.shown, (f.detach address change).2) := by
  rw [detach, detach, wordIndex_shown]
  cases f.wordIndex address with
  | error fault => rw [shown_shown]
  | ok index =>
      dsimp only
      rw [slot_shown]
      cases f.slot index with
      | empty | ready instr =>
          dsimp only [shownSlot]
          rw [shown_shown]
      | attached attachment =>
          dsimp only [shownSlot]
          rw [shown_setSlot, shown_setSlot, shown_shown]

/-! ### Fetches -/

/-- What is fetched, and what shows of the flash afterwards. -/
def delivery (fetched : Fetched × Flash) : Fetched × Flash :=
  (fetched.1, fetched.2.shown)

theorem Coherent.fetch_shown (coherent : f.Coherent) (pc : Nat) :
    (f.shown.fetch pc).map delivery = (f.fetch pc).map delivery := by
  rw [fetch, fetch, wordIndex_shown]
  cases f.wordIndex pc with
  | error fault => rfl
  | ok index =>
      dsimp only [bind, Except.bind]
      have bare (slot : Slot) : (f.shown.setSlot index slot).shown = (f.setSlot index slot).shown := by
        rw [shown_setSlot, shown_setSlot, shown_shown]
      rw [slot_shown]
      cases found : f.slot index with
      | empty =>
          change Except.ok (Fetched.plain _, _) = Except.ok (Fetched.plain _, _)
          rw [bare]
          rfl
      | ready instr =>
          have right : instr = f.decodeAt index := coherent index instr (by rw [found]; rfl)
          have forgets : (f.setSlot index (.ready (f.decodeAt index))).shown = f.shown :=
            shown_setSlot_of_empty (by rw [found]; rfl) rfl
          rw [right]
          exact congrArg (fun flash => Except.ok (Fetched.plain (f.decodeAt index), flash))
            ((bare _).trans forgets)
      | attached attachment =>
          dsimp only [shownSlot]
          split
          · exact congrArg (fun flash => Except.ok (Fetched.paused, flash)) (bare _)
          · exact congrArg (fun flash => Except.ok (Fetched.probed _ _, flash)) (bare _)

/-! ### What is read -/

theorem Coherent.instr_shown (coherent : f.Coherent) (address : Nat) :
    f.shown.instr address = f.instr address := by
  rw [Flash.instr, Flash.instr, wordIndex_shown]
  cases f.wordIndex address with
  | error fault => rfl
  | ok index =>
      dsimp only [bind, Except.bind]
      rw [slot_shown]
      cases found : f.slot index with
      | empty | attached attachment => rfl
      | ready instr =>
          rw [coherent index instr (by rw [found]; rfl)]
          rfl

theorem hasBreakpoint_shown (f : Flash) (address : Nat) :
    f.shown.hasBreakpoint address = f.hasBreakpoint address := by
  rw [hasBreakpoint, hasBreakpoint, wordIndex_shown]
  cases f.wordIndex address with
  | error fault => rfl
  | ok index =>
      dsimp only
      rw [slot_shown]
      cases f.slot index <;> rfl

theorem probeCount_shown (f : Flash) (address : Nat) :
    f.shown.probeCount address = f.probeCount address := by
  rw [probeCount, probeCount, wordIndex_shown]
  cases f.wordIndex address with
  | error fault => rfl
  | ok index =>
      dsimp only
      rw [slot_shown]
      cases f.slot index <;> rfl

theorem describe_shown (f : Flash) : f.shown.describe = f.describe := by
  have attached : slotAttached ∘ shownSlot = slotAttached := by
    funext slot
    cases slot <;> rfl
  rw [describe, describe, shown, Array.countP_map, attached]
  rfl

/-! ### Changes from outside -/

/-- What is written to flash or attached to it from outside, if it is not refused. -/
inductive Edit : (Flash → Except Fault Flash) → Prop where
  | set (address : Nat) (value : UInt8) : Edit (·.set address value)
  | load (offset : Nat) (values : List UInt8) : Edit (·.load offset values)
  | insertProbe (address : Nat) (probe : Handle) : Edit (·.insertProbe address probe)
  | insertBreakpoint (address : Nat) : Edit (·.insertBreakpoint address)

/-- What is taken from a word again, and whether it was there. -/
inductive Removal : (Flash → Flash × Bool) → Prop where
  | probe (address : Nat) (probe : Handle) : Removal (·.removeProbe address probe)
  | breakpoint (address : Nat) : Removal (·.removeBreakpoint address)

theorem Edit.coherent {change : Flash → Except Fault Flash} (edit : Edit change)
    (coherent : f.Coherent) {next : Flash} (done : change f = .ok next) : next.Coherent := by
  cases edit with
  | set address value => exact coherent.of_set done
  | load offset values => exact coherent.of_load done
  | insertProbe address probe =>
      have after := agrees_apply coherent (.insertProbe address probe)
      dsimp only at done
      rwa [apply, done] at after
  | insertBreakpoint address =>
      have after := agrees_apply coherent (.insertBreakpoint address)
      dsimp only at done
      rwa [apply, done] at after

theorem Removal.coherent {change : Flash → Flash × Bool} (removal : Removal change)
    (coherent : f.Coherent) : (change f).1.Coherent := by
  cases removal with
  | probe address probe => exact agrees_apply coherent (.removeProbe address probe)
  | breakpoint address => exact agrees_apply coherent (.removeBreakpoint address)

theorem Edit.shown {change : Flash → Except Fault Flash} (edit : Edit change)
    (coherent : f.Coherent) : (change f).map Flash.shown = change f.shown := by
  cases edit with
  | set address value => exact shown_set f address value
  | load offset values => exact shown_load f offset values
  | insertProbe address probe => exact coherent.shown_insertProbe address probe
  | insertBreakpoint address => exact coherent.shown_insertBreakpoint address

theorem Removal.shown {change : Flash → Flash × Bool} (removal : Removal change) (f : Flash) :
    ((change f.shown).1.shown, (change f.shown).2) = ((change f).1.shown, (change f).2) := by
  cases removal with
  | probe address probe =>
      dsimp only
      rw [removeProbe_eq, removeProbe_eq]
      exact detach_shown f address _
  | breakpoint address =>
      dsimp only
      rw [removeBreakpoint_eq, removeBreakpoint_eq]
      exact detach_shown f address _

/-! ### Flashes that show the same -/

/-- The flashes show the same, and remember what is right. -/
structure Same (f g : Flash) : Prop where
  shown : f.shown = g.shown
  left : f.Coherent
  right : g.Coherent

namespace Same

variable (same : Same f g)
include same

theorem segment : f.segment = g.segment :=
  (congrArg Flash.segment same.shown : f.shown.segment = g.shown.segment)

theorem concur {change : Flash → Except Fault Flash} (edit : Edit change) :
    Concur Same (change f) (change g) := by
  have shows : (change f).map Flash.shown = (change g).map Flash.shown := by
    rw [edit.shown same.left, edit.shown same.right, same.shown]
  exact (Concur.of_map shows).known.mono fun next next' ⟨done, done', shown⟩ =>
    ⟨shown, edit.coherent same.left done, edit.coherent same.right done'⟩

theorem removal {change : Flash → Flash × Bool} (removal : Removal change) :
    Same (change f).1 (change g).1 ∧ (change f).2 = (change g).2 := by
  have both := (removal.shown f).symm.trans (same.shown ▸ removal.shown g)
  obtain ⟨shown, found⟩ := Prod.mk.inj both
  exact ⟨⟨shown, removal.coherent same.left, removal.coherent same.right⟩, found⟩

theorem fetch (pc : Nat) :
    Concur (fun got got' => got.1 = got'.1 ∧ Same got.2 got'.2) (f.fetch pc) (g.fetch pc) := by
  have delivers : (f.fetch pc).map delivery = (g.fetch pc).map delivery := by
    rw [← same.left.fetch_shown, ← same.right.fetch_shown, same.shown]
  refine (Concur.of_map delivers).known.mono fun got got' ⟨fetches, fetches', delivered⟩ => ?_
  obtain ⟨fetched, shown⟩ := Prod.mk.inj delivered
  exact ⟨fetched, shown, (same.left.of_fetch fetches).1, (same.right.of_fetch fetches').1⟩

end Same

/-! ### Breakpoints that are armed again -/

/-- What is attached to the word of a slot, apart from whether a breakpoint has fired. -/
def held : Slot → Option (HandleList × Bool)
  | .attached attachment => some (attachment.probes, attachment.breakpoint)
  | _ => none

theorem map_held_shown (f : Flash) : f.shown.slots.map held = f.slots.map held := by
  have ignores : held ∘ shownSlot = held := by
    funext slot
    cases slot <;> rfl
  rw [shown, Array.map_map, ignores]

theorem map_held_rearm (f : Flash) : f.rearm.slots.map held = f.slots.map held := by
  have ignores : held ∘ rearmSlot = held := by
    funext slot
    cases slot <;> rfl
  rw [rearm, Array.map_map, ignores]

theorem shownSlot_rearmSlot {slot slot' : Slot} (attached : held slot = held slot')
    (instrs : ∀ instr instr', remembered? slot = some instr → remembered? slot' = some instr' →
      instr = instr') : shownSlot (rearmSlot slot) = shownSlot (rearmSlot slot') := by
  cases slot with
  | empty | ready instr =>
      cases slot' with
      | empty | ready instr' => rfl
      | attached attachment' => cases attached
  | attached attachment =>
      cases slot' with
      | empty | ready instr' => cases attached
      | attached attachment' =>
          obtain ⟨instr, probes, breakpoint, fired⟩ := attachment
          obtain ⟨instr', probes', breakpoint', fired'⟩ := attachment'
          cases attached
          cases instrs instr instr' rfl rfl
          rfl

/-- Armed again, flashes show the same if they have the same bytes and the same is attached to them:
neither what they remember nor which breakpoints had fired is left. -/
theorem same_rearm (coherent : f.Coherent) (coherent' : g.Coherent)
    (segments : f.segment = g.segment) (attached : f.slots.map held = g.slots.map held) :
    Same f.rearm g.rearm where
  shown := by
    have sizes : f.slots.size = g.slots.size := by simpa using congrArg Array.size attached
    have slots : (f.slots.map rearmSlot).map shownSlot = (g.slots.map rearmSlot).map shownSlot := by
      refine Array.ext (by simpa using sizes) fun index inside inside' => ?_
      have here : index < f.slots.size := by simpa using inside
      have here' : index < g.slots.size := by simpa using inside'
      have decodes : f.decodeAt index = g.decodeAt index := by
        rw [decodeAt, decodeAt, word, word, word, word, segments]
      have kept : held f.slots[index] = held g.slots[index] := by
        simpa [here, here'] using congrArg (·[index]?) attached
      simp only [Array.getElem_map]
      refine shownSlot_rearmSlot kept fun instr instr' remembers remembers' => ?_
      rw [coherent index instr (by simpa [Flash.slot, here] using remembers), decodes,
        coherent' index instr' (by simpa [Flash.slot, here'] using remembers')]
    rw [shown, shown, rearm, rearm, segments, slots]
  left := agrees_apply coherent .rearm
  right := agrees_apply coherent' .rearm

end Flash

end Avr

import Avr.Proofs.Attachment.Lists
import Avr.Proofs.Flash.Pauses
import Avr.Proofs.Flash.Shown

/-!
Contract: the probes of instructions, kept in the slots of their words.

Owns:
- the probes of an address, as the wrapper of its slot lists them;
- flash on which every wrapper carries something;
- the probes of flash as a faithful container, under which bytes are written and slots are fetched.
-/

namespace Avr.Flash

open Avr.Attaching Avr.Isa

/-- The probes on the instruction at a byte address. -/
def probesOn (f : Flash) (address : Nat) : HandleList :=
  match f.wordIndex address with
  | .error _ => []
  | .ok index =>
    match f.slot index with
    | .attached attachment => attachment.probes
    | _ => []

/-- The probes of flash, with the operations of flash. -/
def probing : Container Flash Operation where
  apply := apply
  answer f operation :=
    match operation with
    | .set address value => .ofResult (f.set address value)
    | .load offset values => .ofResult (f.load offset values)
    | .fetch pc => .ofResult (f.fetch pc)
    | .insertProbe address probe => .ofResult (f.insertProbe address probe)
    | .removeProbe address probe => .removed (f.removeProbe address probe).2
    | .insertBreakpoint address => .ofResult (f.insertBreakpoint address)
    | .removeBreakpoint address => .removed (f.removeBreakpoint address).2
    | .rearm => .done
  call?
    | .insertProbe address probe => some (.insert address probe)
    | .removeProbe address probe => some (.remove address probe)
    | _ => none
  lists := probesOn
  refusal f address := fault? (f.wordIndex address)
  bare f := { f with slots := Array.replicate f.slots.size .empty }

/-- Every wrapper carries a probe or a breakpoint. -/
def Settled (f : Flash) : Prop :=
  ∀ index, ∃ mark, Marked (f.slot index) mark

variable {f g : Flash}

theorem settled_new (size : Nat) : (new size).Settled := by
  intro index
  refine ⟨.none, .bare ?_⟩
  simp only [Flash.slot, new, Array.getD_eq_getD_getElem?, Array.getElem?_replicate]
  split <;> rfl

theorem Settled.apply (settled : f.Settled) (operation : Operation) :
    (f.apply operation).Settled := by
  intro index
  obtain ⟨mark, marked⟩ := settled index
  by_cases inside : index < f.slots.size
  · exact ⟨_, marked.apply inside operation⟩
  · refine ⟨.none, .bare ?_⟩
    rw [slot_outside (by rw [size_slots_apply]; exact Nat.not_lt.mp inside)]
    rfl

theorem Marked.probesOn_eq {mark : Mark} {address index : Nat} (marked : Marked (f.slot index) mark)
    (found : f.wordIndex address = .ok index) : f.probesOn address = mark.probes := by
  simp only [probesOn, found]
  generalize f.slot index = slot at marked
  cases marked with
  | bare unwrapped =>
      cases slot with
      | empty | ready instr => rfl
      | attached attachment => cases unwrapped
  | wrapped needed owed => rfl

theorem wordIndex_apply (f : Flash) (operation : Operation) (address : Nat) :
    (f.apply operation).wordIndex address = f.wordIndex address := by
  rw [wordIndex, size_slots_apply, wordIndex]

theorem probesOn_refused {address : Nat} {fault : Fault}
    (refused : f.wordIndex address = .error fault) : f.probesOn address = [] := by
  rw [probesOn, refused]

/-- An operation changes the probes of an address as it says, unless it is refused there. -/
theorem Settled.probesOn_apply (settled : f.Settled) {operation : Operation} {address : Nat}
    (accepted : ∀ probe, operation = .insertProbe address probe →
      ∃ index, f.wordIndex address = .ok index) :
    (f.apply operation).probesOn address =
      probesAfter address (f.probesOn address) operation := by
  have same := wordIndex_apply f operation address
  cases found : f.wordIndex address with
  | ok index =>
      obtain ⟨mark, marked⟩ := settled index
      obtain ⟨rfl, inside⟩ := wordIndex_eq_ok found
      rw [(marked.apply inside operation).probesOn_eq (same.trans found), marked.probesOn_eq found]
      rfl
  | error fault =>
      rw [probesOn_refused (same.trans found), probesOn_refused found]
      cases operation with
      | insertProbe place probe =>
          have elsewhere : place ≠ address := by
            rintro rfl
            obtain ⟨index, accepts⟩ := accepted probe rfl
            exact nomatch found.symm.trans accepts
          exact (if_neg elsewhere).symm
      | removeProbe place probe => simp [probesAfter, HandleList.remove]
      | _ => rfl

/-- What a wrapper carries, it carries on. -/
theorem Settled.settle_eq (settled : f.Settled) {index : Nat} {attachment : Attachment}
    (attached : f.slot index = .attached attachment) :
    settle attachment = .attached attachment := by
  obtain ⟨mark, marked⟩ := settled index
  rw [attached] at marked
  cases marked with
  | bare unwrapped => cases unwrapped
  | @wrapped instr probes breakpoint fired needed owed =>
      rw [settle, if_neg]
      simpa [Classical.or_iff_not_imp_left] using needed

theorem Settled.removeProbe_of_notMem (settled : f.Settled) {address : Nat} {probe : Handle}
    (missing : probe ∉ f.probesOn address) : f.removeProbe address probe = (f, false) := by
  rw [removeProbe]
  split
  · rfl
  · next index found =>
    split
    · next attachment attached =>
      simp only [probesOn, found, attached] at missing
      have absent : attachment.probes.contains probe = false := by simpa using missing
      simp only [HandleList.remove, absent, List.erase_of_not_mem missing]
      rw [settled.settle_eq attached, ← attached, setSlot_slot]
    · rfl

theorem removeProbe_of_mem {address : Nat} {probe : Handle} (member : probe ∈ f.probesOn address) :
    (f.removeProbe address probe).2 = true := by
  rw [removeProbe]
  cases found : f.wordIndex address with
  | error fault =>
      rw [probesOn_refused found] at member
      cases member
  | ok index =>
      simp only [probesOn, found] at member ⊢
      split at member
      · next attachment attached => simpa [attached] using member
      · cases member

/-- A breakpoint that is not there cannot be removed. -/
theorem Settled.removeBreakpoint_of_false (settled : f.Settled) {address : Nat}
    (nothing : (f.removeBreakpoint address).2 = false) : (f.removeBreakpoint address).1 = f := by
  unfold removeBreakpoint at *
  split
  · rfl
  · next index found =>
    split
    · next attachment attached =>
      obtain ⟨instr, probes, breakpoint, fired⟩ := attachment
      simp only [found, attached] at nothing
      obtain ⟨mark, marked⟩ := settled index
      have unfired : fired = false := by
        rw [attached] at marked
        cases marked with
        | bare unwrapped => cases unwrapped
        | wrapped needed owed => exact Bool.eq_false_iff.mpr (mt owed (by simp [nothing]))
      subst nothing unfired
      rw [settled.settle_eq attached, ← attached, setSlot_slot]
    · rfl

/-! ### Probes against plain lists -/

theorem Settled.lists_insertProbe (settled : f.Settled) {address index : Nat}
    (found : f.wordIndex address = .ok index) (probe : Handle) :
    probing.lists (f.apply (.insertProbe address probe)) =
      Function.update (probing.lists f) address (probing.lists f address ++ [probe]) := by
  funext other
  have inserted : (f.apply (.insertProbe address probe)).probesOn other =
      probesAfter other (f.probesOn other) (.insertProbe address probe) := by
    apply settled.probesOn_apply
    intro _ same
    cases same
    exact ⟨index, found⟩
  refine inserted.trans ?_
  rw [Function.update_apply]
  by_cases here : other = address
  · subst here
    simp [probesAfter, HandleList.insert, probing]
  · simp [probesAfter, here, Ne.symm here, probing]

theorem Settled.lists_removeProbe (settled : f.Settled) (address : Nat) (probe : Handle) :
    probing.lists (f.apply (.removeProbe address probe)) =
      Function.update (probing.lists f) address ((probing.lists f address).erase probe) := by
  funext other
  have removed : (f.apply (.removeProbe address probe)).probesOn other =
      probesAfter other (f.probesOn other) (.removeProbe address probe) :=
    settled.probesOn_apply nofun
  refine removed.trans ?_
  rw [Function.update_apply]
  by_cases here : other = address
  · subst here
    simp [probesAfter, HandleList.remove, probing]
  · simp [probesAfter, here, Ne.symm here, probing]

theorem Settled.lists_other (settled : f.Settled) {operation : Operation}
    (other : probing.call? operation = none) :
    probing.lists (f.apply operation) = probing.lists f := by
  funext address
  have kept : (f.apply operation).probesOn address =
      probesAfter address (f.probesOn address) operation := by
    apply settled.probesOn_apply
    rintro probe rfl
    cases other
  cases operation with
  | insertProbe | removeProbe => cases other
  | _ => exact kept

theorem segment_apply_congr (same : f.segment = g.segment) (operation : Operation) :
    (f.apply operation).segment = (g.apply operation).segment := by
  cases operation with
  | set address value =>
      rw [Flash.apply, Flash.apply, kept_set, kept_set, same]
      split
      · rw [segment_invalidate, segment_invalidate]
      · exact same
  | load offset values =>
      rw [Flash.apply, Flash.apply, kept_load, kept_load, same]
      split
      · rw [segment_invalidateFrom, segment_invalidateFrom]
      · exact same
  | _ => rw [segment_apply f rfl, segment_apply g rfl, same]

theorem bare_probing_inj :
    probing.bare f = probing.bare g ↔ f.segment = g.segment ∧ f.slots.size = g.slots.size := by
  change (⟨f.segment, Array.replicate f.slots.size .empty⟩ : Flash) =
    ⟨g.segment, Array.replicate g.slots.size .empty⟩ ↔ _
  constructor
  · intro same
    have slots := congrArg Array.size (Flash.mk.inj same).2
    exact ⟨(Flash.mk.inj same).1, by simpa using slots⟩
  · rintro ⟨segment, slots⟩
    rw [segment, slots]

theorem faithful_probing : Faithful probing Settled where
  tidy operation settled := settled.apply operation
  refusal f operation := funext fun address => congrArg fault? (wordIndex_apply f operation address)
  inserts {f operation address probe} settled called accepted := by
    cases operation with
    | insertProbe =>
        cases called
        obtain ⟨index, found⟩ := exists_of_fault?_eq_none accepted
        refine ⟨?_, settled.lists_insertProbe found probe⟩
        change Answer.ofResult (f.insertProbe address probe) = .done
        rw [insertProbe, found]
        rfl
    | _ => cases called
  refuses {f operation address probe fault} called refused := by
    cases operation with
    | insertProbe =>
        cases called
        have refuses : f.insertProbe address probe = .error fault := by
          rw [insertProbe, eq_of_fault?_eq_some refused]
          rfl
        exact ⟨congrArg Answer.ofResult refuses, congrArg f.kept refuses⟩
    | _ => cases called
  removes {f operation address probe} settled called member := by
    cases operation with
    | removeProbe =>
        cases called
        exact ⟨congrArg Answer.removed (removeProbe_of_mem member),
          settled.lists_removeProbe address probe⟩
    | _ => cases called
  misses {f operation address probe} settled called missing := by
    cases operation with
    | removeProbe =>
        cases called
        change Answer.removed (f.removeProbe address probe).2 = _ ∧
          (f.removeProbe address probe).1 = f
        rw [settled.removeProbe_of_notMem missing]
        exact ⟨rfl, rfl⟩
    | _ => cases called
  other settled other := settled.lists_other other
  otherFailed {f operation} settled other failed := by
    cases operation with
    | insertProbe | removeProbe => cases other
    | set | load | fetch | insertBreakpoint =>
        obtain ⟨fault, refused⟩ := Answer.exists_of_failed failed
        simp only [probing, Flash.apply, refused, Flash.kept, Except.map]
    | removeBreakpoint address =>
        have nothing : (!(f.removeBreakpoint address).2) = true := failed
        exact settled.removeBreakpoint_of_false (by simpa using nothing)
    | rearm => cases failed
  bareCall {operation call} f called := by
    refine bare_probing_inj.mpr ⟨segment_apply f ?_, size_slots_apply f operation⟩
    cases operation with
    | insertProbe | removeProbe => rfl
    | _ => cases called
  bareOther {operation f g} _ same := by
    obtain ⟨segment, slots⟩ := bare_probing_inj.mp same
    refine bare_probing_inj.mpr ⟨segment_apply_congr segment operation, ?_⟩
    exact (size_slots_apply f operation).trans (slots.trans (size_slots_apply g operation).symm)
  bareBare f := bare_probing_inj.mpr ⟨rfl, Array.size_replicate⟩

/-! ### After any operations -/

/-- A slot is wrapped exactly while it has a probe or a breakpoint. -/
theorem slotAttached_after (size : Nat) (operations : List Operation) {index : Nat}
    (inside : index < size / 2) :
    slotAttached ((after size operations).slot index) = true ↔
      (after size operations).probesOn (2 * index) ≠ [] ∨
        breaksAt (2 * index) operations = true := by
  have marked := marked_after size operations inside
  have found : (after size operations).wordIndex (2 * index) = .ok index :=
    wordIndex_even (by rw [(sound_after size operations).slots]; exact inside)
  rw [marked.slotAttached_iff, marked.probesOn_eq found, breakpoint_markAt]

/-- Bytes and instructions are those of the same history without any probes. -/
theorem after_others (size : Nat) (operations : List Operation) :
    let unprobed := after size (probing.others operations)
    (after size operations).segment = unprobed.segment ∧
      ∀ address, (after size operations).instr address = unprobed.instr address := by
  intro unprobed
  have same : probing.bare (after size operations) = probing.bare unprobed :=
    faithful_probing.bare_run rfl operations
  obtain ⟨segment, -⟩ := bare_probing_inj.mp same
  have sound := sound_after size operations
  have soundUnprobed := sound_after size (probing.others operations)
  refine ⟨segment, sound.instr_congr { soundUnprobed with contains := ?_ }⟩
  rw [Contains, ← segment]
  exact sound.contains

end Avr.Flash

import Avr.Proofs.Flash.Coherence
import Avr.Proofs.Flash.Breakpoints

/-!
Contract: a breakpoint pauses once before each execution of its instruction.

Owns:
- what a history of operations attaches to one address, kept in plain sight;
- agreement of the slot of the address with it, after any operations;
- the answers of the fetches at an address with a breakpoint, and after it was removed.

Writes re-decode the slot of an address, and whatever is attached to its word rides along. A slot
is unwrapped as soon as nothing is attached, so the wrapper never outlives what it carries.
-/

namespace Avr.Flash

open Avr.Isa

/-! ### What a history attaches -/

/-- The probes at an address after an operation. -/
def probesAfter (address : Nat) (probes : HandleList) : Operation → HandleList
  | .insertProbe place probe => if place = address then probes.insert probe else probes
  | .removeProbe place probe => if place = address then (probes.remove probe).1 else probes
  | _ => probes

/-- Whether there is a breakpoint at an address after an operation. -/
def breaksAfter (address : Nat) (breakpoint : Bool) : Operation → Bool
  | .insertBreakpoint place => if place = address then true else breakpoint
  | .removeBreakpoint place => if place = address then false else breakpoint
  | _ => breakpoint

/-- What is attached to the instruction at one address. -/
structure Mark where
  probes : HandleList
  breakpoint : Bool
  fired : Bool

namespace Mark

def none : Mark := ⟨[], false, false⟩

def firedAfter (address : Nat) (mark : Mark) : Operation → Bool
  | .fetch pc => if pc = address then mark.breakpoint && !mark.fired else mark.fired
  | .insertBreakpoint place | .removeBreakpoint place =>
    if place = address then false else mark.fired
  | .rearm => false
  | _ => mark.fired

def after (address : Nat) (mark : Mark) (operation : Operation) : Mark where
  probes := probesAfter address mark.probes operation
  breakpoint := breaksAfter address mark.breakpoint operation
  fired := mark.firedAfter address operation

/-- What a fetch of the marked instruction answers. -/
def answer (mark : Mark) (instr : Instr) : Fetched :=
  if mark.breakpoint && !mark.fired then .paused
  else if mark.probes.isEmpty && !mark.breakpoint then .plain instr
  else .probed instr mark.probes

end Mark

/-- The probes that a history attaches to an address: insertion at the end, removal of the first. -/
def probesAt (address : Nat) (operations : List Operation) : HandleList :=
  operations.foldl (probesAfter address) []

/-- Whether a history leaves a breakpoint at an address. -/
def breaksAt (address : Nat) (operations : List Operation) : Bool :=
  operations.foldl (breaksAfter address) false

theorem probes_foldl_after (address : Nat) (operations : List Operation) (mark : Mark) :
    (operations.foldl (Mark.after address) mark).probes =
      operations.foldl (probesAfter address) mark.probes := by
  induction operations generalizing mark with
  | nil => rfl
  | cons operation rest inductionHypothesis =>
      exact inductionHypothesis (mark.after address operation)

theorem breakpoint_foldl_after (address : Nat) (operations : List Operation) (mark : Mark) :
    (operations.foldl (Mark.after address) mark).breakpoint =
      operations.foldl (breaksAfter address) mark.breakpoint := by
  induction operations generalizing mark with
  | nil => rfl
  | cons operation rest inductionHypothesis =>
      exact inductionHypothesis (mark.after address operation)

/-! ### Slots that carry a mark -/

/-- The slot carries the mark, and is wrapped only if the mark needs it. -/
inductive Marked : Slot → Mark → Prop
  | bare {slot : Slot} (unwrapped : slotAttached slot = false) : Marked slot .none
  | wrapped {instr : Instr} {probes : HandleList} {breakpoint fired : Bool}
      (needed : probes ≠ [] ∨ breakpoint = true) (owed : fired = true → breakpoint = true) :
      Marked (.attached ⟨instr, probes, breakpoint, fired⟩) ⟨probes, breakpoint, fired⟩

namespace Marked

variable {f : Flash} {slot : Slot} {mark : Mark} {index : Nat}

theorem slotBreaks_eq (marked : Marked slot mark) : slotBreaks slot = mark.breakpoint := by
  cases marked with
  | bare unwrapped =>
      cases slot with
      | empty | ready instr => rfl
      | attached attachment => cases unwrapped
  | wrapped needed owed => rfl

theorem slotAttached_iff (marked : Marked slot mark) :
    slotAttached slot = true ↔ mark.probes ≠ [] ∨ mark.breakpoint = true := by
  cases marked with
  | bare unwrapped => simp [unwrapped, Mark.none]
  | wrapped needed owed => simp [slotAttached, needed]

theorem owed (marked : Marked slot mark) : mark.fired = true → mark.breakpoint = true := by
  cases marked with
  | bare unwrapped => exact nofun
  | wrapped needed owed => exact owed

theorem attachment_eq (marked : Marked (f.slot index) mark) :
    ∃ instr, f.attachment index = ⟨instr, mark.probes, mark.breakpoint, mark.fired⟩ := by
  unfold Flash.attachment
  generalize f.slot index = slot at marked
  cases marked with
  | bare unwrapped =>
      cases slot with
      | empty => exact ⟨_, rfl⟩
      | ready instr => exact ⟨_, rfl⟩
      | attached attachment => cases unwrapped
  | wrapped needed owed => exact ⟨_, rfl⟩

/-- Settling unwraps exactly the slots that need no wrapper. -/
theorem settle {instr : Instr} {probes : HandleList} {breakpoint fired : Bool}
    (owed : fired = true → breakpoint = true) :
    Marked (settle ⟨instr, probes, breakpoint, fired⟩) ⟨probes, breakpoint, fired⟩ := by
  unfold Flash.settle
  split
  · next nothing =>
    simp only [Bool.and_eq_true, List.isEmpty_iff, Bool.not_eq_true'] at nothing
    obtain ⟨rfl, rfl⟩ := nothing
    have armed : fired = false := by
      cases fired with
      | false => rfl
      | true => cases owed rfl
    subst armed
    exact .bare rfl
  · next something =>
    apply Marked.wrapped _ owed
    simpa [Classical.or_iff_not_imp_left] using something

/-! ### Writes -/

theorem refresh {f : Flash} {mark : Mark} {index : Nat} (marked : Marked (f.slot index) mark)
    (other : Nat) : Marked ((f.refresh other).slot index) mark := by
  by_cases inside : index < f.slots.size
  · unfold Flash.refresh
    by_cases here : index = other
    · subst here
      split
      · exact marked
      · next instr found =>
        rw [found] at marked
        rw [slot_setSlot_self _ inside]
        cases marked with
        | bare _ => exact .bare rfl
      · next attachment found =>
        rw [found] at marked
        rw [slot_setSlot_self _ inside]
        cases marked with
        | bare unwrapped => cases unwrapped
        | wrapped needed owed => exact .wrapped needed owed
    · split
      · exact marked
      · rwa [slot_setSlot_other _ here]
      · rwa [slot_setSlot_other _ here]
  · rw [slot_outside (Nat.not_lt.mp inside)] at marked
    rwa [slot_outside (by simpa using inside)]

theorem invalidate (marked : Marked (f.slot index) mark) (other : Nat) :
    Marked ((f.invalidate other).slot index) mark := by
  unfold Flash.invalidate
  split
  · exact marked.refresh 0
  · exact (marked.refresh (other - 1)).refresh other

theorem invalidateFrom (marked : Marked (f.slot index) mark) (first count : Nat) :
    Marked ((f.invalidateFrom first count).slot index) mark := by
  induction count generalizing f first with
  | zero => exact marked
  | succ count inductionHypothesis => exact inductionHypothesis (marked.invalidate first) _

end Marked

/-! ### One operation -/

/-- The address of the one instruction that an operation concerns. -/
def Operation.place? : Operation → Option Nat
  | .fetch place | .insertProbe place _ | .removeProbe place _ | .insertBreakpoint place
  | .removeBreakpoint place => some place
  | .set _ _ | .load _ _ | .rearm => none

theorem wordIndex_eq_ok {f : Flash} {address index : Nat}
    (found : f.wordIndex address = .ok index) : address = 2 * index ∧ index < f.slots.size := by
  unfold wordIndex at found
  split at found
  · split at found
    · cases found
      omega
    · cases found
  · cases found

/-- An operation on one instruction writes no slot but that of its own word. -/
theorem apply_place {f : Flash} {operation : Operation} {place : Nat}
    (placed : operation.place? = some place) :
    f.apply operation = f ∨
      ∃ index slot, f.wordIndex place = .ok index ∧ f.apply operation = f.setSlot index slot := by
  cases operation with
  | set | load | rearm => cases placed
  | fetch pc =>
      cases placed
      simp only [apply, fetch]
      cases found : f.wordIndex place with
      | error fault => exact .inl rfl
      | ok index =>
          simp only [bind, Except.bind]
          split
          · exact .inl rfl
          · split
            · exact .inr ⟨index, _, rfl, rfl⟩
            · exact .inr ⟨index, _, rfl, rfl⟩
          · exact .inr ⟨index, _, rfl, rfl⟩
  | insertProbe | insertBreakpoint =>
      cases placed
      simp only [apply, insertProbe, insertBreakpoint]
      cases found : f.wordIndex place with
      | error fault => exact .inl rfl
      | ok index => exact .inr ⟨index, _, rfl, rfl⟩
  | removeProbe | removeBreakpoint =>
      cases placed
      simp only [apply, removeProbe, removeBreakpoint]
      cases found : f.wordIndex place with
      | error fault => exact .inl rfl
      | ok index =>
          dsimp only
          split
          · exact .inr ⟨index, _, rfl, rfl⟩
          · exact .inl rfl

theorem slot_apply_elsewhere {f : Flash} {operation : Operation} {place index : Nat}
    (placed : operation.place? = some place) (elsewhere : place ≠ 2 * index) :
    (f.apply operation).slot index = f.slot index := by
  rcases apply_place (f := f) placed with same | ⟨other, slot, found, changed⟩
  · rw [same]
  · rw [changed]
    apply slot_setSlot_other
    intro here
    exact elsewhere (here ▸ (wordIndex_eq_ok found).1)

theorem Mark.after_elsewhere {mark : Mark} {operation : Operation} {place address : Nat}
    (placed : operation.place? = some place) (elsewhere : place ≠ address) :
    mark.after address operation = mark := by
  cases operation with
  | set | load | rearm => cases placed
  | fetch | insertProbe | removeProbe | insertBreakpoint | removeBreakpoint =>
      cases placed
      simp [Mark.after, probesAfter, breaksAfter, Mark.firedAfter, elsewhere]

section Here

variable {f : Flash} {mark : Mark} {index : Nat}

theorem Marked.fetch (marked : Marked (f.slot index) mark) (inside : index < f.slots.size) :
    Marked ((f.apply (.fetch (2 * index))).slot index)
      { mark with fired := mark.breakpoint && !mark.fired } := by
  simp only [apply, Flash.fetch, wordIndex_even inside, bind, Except.bind]
  generalize found : f.slot index = slot at marked
  cases marked with
  | bare unwrapped =>
      cases slot with
      | empty =>
          show Marked ((f.setSlot index _).slot index) _
          rw [slot_setSlot_self _ inside]
          exact .bare rfl
      | ready instr =>
          show Marked (f.slot index) _
          rw [found]
          exact .bare rfl
      | attached attachment => cases unwrapped
  | @wrapped instr probes breakpoint fired needed owed =>
      dsimp only
      by_cases armed : (breakpoint && !fired) = true
      · rw [if_pos armed, armed]
        show Marked ((f.setSlot index _).slot index) _
        rw [slot_setSlot_self _ inside]
        apply Marked.wrapped needed
        intro _
        exact (Bool.and_eq_true_iff.mp armed).1
      · rw [if_neg armed, Bool.eq_false_iff.mpr armed]
        show Marked ((f.setSlot index _).slot index) _
        rw [slot_setSlot_self _ inside]
        exact .wrapped needed fun fired => absurd fired Bool.false_ne_true

theorem Marked.insertProbe (marked : Marked (f.slot index) mark) (inside : index < f.slots.size)
    (probe : Handle) :
    Marked ((f.apply (.insertProbe (2 * index) probe)).slot index)
      { mark with probes := mark.probes.insert probe } := by
  obtain ⟨instr, attached⟩ := marked.attachment_eq
  simp only [apply, Flash.insertProbe, wordIndex_even inside, bind, Except.bind, attached]
  show Marked ((f.setSlot index _).slot index) _
  rw [slot_setSlot_self _ inside]
  exact .wrapped (.inl (by simp [HandleList.insert])) marked.owed

theorem Marked.insertBreakpoint (marked : Marked (f.slot index) mark)
    (inside : index < f.slots.size) :
    Marked ((f.apply (.insertBreakpoint (2 * index))).slot index) ⟨mark.probes, true, false⟩ := by
  obtain ⟨instr, attached⟩ := marked.attachment_eq
  simp only [apply, Flash.insertBreakpoint, wordIndex_even inside, bind, Except.bind, attached]
  show Marked ((f.setSlot index _).slot index) _
  rw [slot_setSlot_self _ inside]
  exact .wrapped (.inr rfl) fun fired => absurd fired Bool.false_ne_true

theorem Marked.removeProbe (marked : Marked (f.slot index) mark) (inside : index < f.slots.size)
    (probe : Handle) :
    Marked ((f.apply (.removeProbe (2 * index) probe)).slot index)
      { mark with probes := (mark.probes.remove probe).1 } := by
  simp only [apply, Flash.removeProbe, wordIndex_even inside]
  generalize found : f.slot index = slot at marked
  cases marked with
  | bare unwrapped =>
      cases slot with
      | empty | ready instr =>
          show Marked (f.slot index) _
          rw [found]
          exact .bare rfl
      | attached attachment => cases unwrapped
  | wrapped needed owed =>
      show Marked ((f.setSlot index _).slot index) _
      rw [slot_setSlot_self _ inside]
      exact .settle owed

theorem Marked.removeBreakpoint (marked : Marked (f.slot index) mark)
    (inside : index < f.slots.size) :
    Marked ((f.apply (.removeBreakpoint (2 * index))).slot index) ⟨mark.probes, false, false⟩ := by
  simp only [apply, Flash.removeBreakpoint, wordIndex_even inside]
  generalize found : f.slot index = slot at marked
  cases marked with
  | bare unwrapped =>
      cases slot with
      | empty | ready instr =>
          show Marked (f.slot index) _
          rw [found]
          exact .bare rfl
      | attached attachment => cases unwrapped
  | wrapped needed owed =>
      show Marked ((f.setSlot index _).slot index) _
      rw [slot_setSlot_self _ inside]
      exact .settle fun fired => absurd fired Bool.false_ne_true

theorem slot_rearm (f : Flash) (index : Nat) : f.rearm.slot index = rearmSlot (f.slot index) := by
  simp only [Flash.slot, rearm, Array.getD_eq_getD_getElem?, Array.getElem?_map]
  cases f.slots[index]? with
  | none => rfl
  | some slot => rfl

theorem Marked.rearm (marked : Marked (f.slot index) mark) :
    Marked (f.rearm.slot index) { mark with fired := false } := by
  rw [slot_rearm]
  generalize f.slot index = slot at marked
  cases marked with
  | bare unwrapped =>
      cases slot with
      | empty | ready instr => exact .bare rfl
      | attached attachment => cases unwrapped
  | wrapped needed owed =>
      exact .wrapped needed fun fired => absurd fired Bool.false_ne_true

theorem Marked.withSegment (marked : Marked (f.slot index) mark) (segment : Memory.Segment) :
    Marked (({ f with segment } : Flash).slot index) mark := marked

end Here

/-- An operation on the instruction of a word leaves its slot with the mark that it says. -/
theorem Marked.apply_here {f : Flash} {mark : Mark} {index : Nat} {operation : Operation}
    (marked : Marked (f.slot index) mark) (inside : index < f.slots.size)
    (placed : operation.place? = some (2 * index)) :
    Marked ((f.apply operation).slot index) (mark.after (2 * index) operation) := by
  cases operation with
  | set | load | rearm => cases placed
  | fetch =>
      cases placed
      simpa [Mark.after, probesAfter, breaksAfter, Mark.firedAfter] using marked.fetch inside
  | insertProbe _ probe =>
      cases placed
      simpa [Mark.after, probesAfter, breaksAfter, Mark.firedAfter] using
        marked.insertProbe inside probe
  | removeProbe _ probe =>
      cases placed
      simpa [Mark.after, probesAfter, breaksAfter, Mark.firedAfter] using
        marked.removeProbe inside probe
  | insertBreakpoint =>
      cases placed
      simpa [Mark.after, probesAfter, breaksAfter, Mark.firedAfter] using
        marked.insertBreakpoint inside
  | removeBreakpoint =>
      cases placed
      simpa [Mark.after, probesAfter, breaksAfter, Mark.firedAfter] using
        marked.removeBreakpoint inside

/-- One operation leaves the slot of a word with the mark that the operation says. -/
theorem Marked.apply {f : Flash} {mark : Mark} {index : Nat} (marked : Marked (f.slot index) mark)
    (inside : index < f.slots.size) (operation : Operation) :
    Marked ((f.apply operation).slot index) (mark.after (2 * index) operation) := by
  cases placed : operation.place? with
  | some place =>
      by_cases here : place = 2 * index
      · subst here
        exact marked.apply_here inside placed
      · rwa [slot_apply_elsewhere placed here, Mark.after_elsewhere placed here]
  | none =>
      cases operation with
      | set address value =>
          rw [Flash.apply, kept_set]
          split
          · exact (marked.withSegment _).invalidate _
          · exact marked
      | load offset values =>
          rw [Flash.apply, kept_load]
          split
          · exact (marked.withSegment _).invalidateFrom _ _
          · exact marked
      | rearm => exact marked.rearm
      | _ => cases placed

/-- The mark that a history leaves at an address. -/
def markAt (address : Nat) (operations : List Operation) : Mark :=
  operations.foldl (Mark.after address) .none

theorem Marked.foldl {f : Flash} {mark : Mark} {index : Nat} (marked : Marked (f.slot index) mark)
    (inside : index < f.slots.size) (operations : List Operation) :
    Marked ((operations.foldl Flash.apply f).slot index)
      (operations.foldl (Mark.after (2 * index)) mark) := by
  induction operations generalizing f mark with
  | nil => exact marked
  | cons operation rest inductionHypothesis =>
      apply inductionHypothesis (marked.apply inside operation)
      rwa [size_slots_apply]

theorem marked_after (size : Nat) (operations : List Operation) {index : Nat}
    (inside : index < size / 2) :
    Marked ((after size operations).slot index) (markAt (2 * index) operations) := by
  have fresh : slotAttached ((new size).slot index) = false := by
    simp [Flash.slot, new, Array.getD_eq_getD_getElem?, inside, slotAttached]
  apply Marked.foldl (.bare fresh)
  simpa [new] using inside

theorem probes_markAt (address : Nat) (operations : List Operation) :
    (markAt address operations).probes = probesAt address operations :=
  probes_foldl_after address operations .none

theorem breakpoint_markAt (address : Nat) (operations : List Operation) :
    (markAt address operations).breakpoint = breaksAt address operations :=
  breakpoint_foldl_after address operations .none

/-! ### The answer of a fetch -/

theorem Marked.fetch_eq {f : Flash} {mark : Mark} {index : Nat}
    (marked : Marked (f.slot index) mark) (agrees : f.Agrees index)
    (inside : index < f.slots.size) :
    (f.fetch (2 * index)).map Prod.fst = .ok (mark.answer (f.decodeAt index)) := by
  simp only [Flash.fetch, wordIndex_even inside, bind, Except.bind]
  generalize found : f.slot index = slot at marked
  cases marked with
  | bare unwrapped =>
      cases slot with
      | empty => rfl
      | ready instr =>
          rw [agrees instr (by rw [found]; rfl)]
          rfl
      | attached attachment => cases unwrapped
  | @wrapped instr probes breakpoint fired needed owed =>
      have right : instr = f.decodeAt index := agrees instr (by rw [found]; rfl)
      have wanted : (probes.isEmpty && !breakpoint) = false := by
        rw [Bool.eq_false_iff]
        simpa [Classical.or_iff_not_imp_left] using needed
      simp only [Mark.answer, wanted, right]
      split
      · rfl
      · rfl

theorem fetch_after (size : Nat) (operations : List Operation) {index : Nat}
    (inside : index < size / 2) :
    ((after size operations).fetch (2 * index)).map Prod.fst =
      .ok ((markAt (2 * index) operations).answer
        (instrOf size (contents size operations) index)) := by
  have sound := sound_after size operations
  rw [← sound.contains.decodeAt_eq]
  exact (marked_after size operations inside).fetch_eq (sound.agrees index)
    (by rw [sound.slots]; exact inside)

/-! ### Breakpoints that stay, and breakpoints that are gone -/

/-- Operations that set, remove or arm the breakpoint at an address. -/
def Operation.disturbs (address : Nat) : Operation → Bool
  | .insertBreakpoint place | .removeBreakpoint place => place = address
  | .rearm => true
  | _ => false

section Undisturbed

variable {address : Nat} {mark : Mark}

theorem Mark.breakpoint_of_calm {operation : Operation}
    (calm : operation.disturbs address = false) (set : mark.breakpoint = true) :
    (mark.after address operation).breakpoint = true := by
  cases operation with
  | insertBreakpoint place | removeBreakpoint place =>
      have elsewhere : place ≠ address := by simpa [Operation.disturbs] using calm
      simp [Mark.after, breaksAfter, elsewhere, set]
  | _ => exact set

theorem Mark.fired_of_calm {operation : Operation}
    (calm : operation.disturbs address = false) (set : mark.breakpoint = true) :
    (mark.after address operation).fired = (mark.fired ^^ decide (operation = .fetch address)) := by
  cases operation with
  | fetch pc =>
      by_cases here : pc = address
      · simp [Mark.after, Mark.firedAfter, here, set]
      · simp [Mark.after, Mark.firedAfter, here]
  | insertBreakpoint place | removeBreakpoint place =>
      have elsewhere : place ≠ address := by simpa [Operation.disturbs] using calm
      simp [Mark.after, Mark.firedAfter, elsewhere]
  | rearm => cases calm
  | _ => simp [Mark.after, Mark.firedAfter]

/-- A breakpoint that is left alone stays, and every fetch of its address turns its fired mark. -/
theorem mark_of_undisturbed {operations : List Operation}
    (undisturbed : ∀ operation ∈ operations, operation.disturbs address = false)
    (set : mark.breakpoint = true) :
    (operations.foldl (Mark.after address) mark).breakpoint = true ∧
      (operations.foldl (Mark.after address) mark).fired =
        (mark.fired ^^ decide (operations.count (.fetch address) % 2 = 1)) := by
  induction operations generalizing mark with
  | nil => simp [set]
  | cons operation rest inductionHypothesis =>
      have calm : operation.disturbs address = false :=
        undisturbed operation List.mem_cons_self
      have calmRest : ∀ operation ∈ rest, operation.disturbs address = false := by
        intro other member
        exact undisturbed other (List.mem_cons_of_mem _ member)
      obtain ⟨breaks, fired⟩ := inductionHypothesis calmRest (Mark.breakpoint_of_calm calm set)
      refine ⟨breaks, ?_⟩
      rw [List.foldl_cons, fired, Mark.fired_of_calm calm set, Bool.xor_assoc]
      congr 1
      by_cases fetches : operation = .fetch address
      · have turned : (rest.count (.fetch address) + 1) % 2 = 1 ↔
            ¬ rest.count (.fetch address) % 2 = 1 := by omega
        rw [fetches, List.count_cons_self, decide_eq_decide.mpr turned, decide_not]
        simp
      · rw [List.count_cons_of_ne fetches]
        simp [fetches]

end Undisturbed

/-- Without a new one there is no breakpoint at an address that has none. -/
theorem breaks_of_uninserted {address : Nat} {operations : List Operation}
    (uninserted : .insertBreakpoint address ∉ operations) :
    operations.foldl (breaksAfter address) false = false := by
  induction operations with
  | nil => rfl
  | cons operation rest inductionHypothesis =>
      rw [List.mem_cons, not_or] at uninserted
      have still : breaksAfter address false operation = false := by
        cases operation with
        | insertBreakpoint place =>
            have elsewhere : place ≠ address := by
              rintro rfl
              exact uninserted.1 rfl
            simp [breaksAfter, elsewhere]
        | removeBreakpoint place => simp [breaksAfter]
        | _ => rfl
      rw [List.foldl_cons, still]
      exact inductionHypothesis uninserted.2

theorem answer_of_inserted {address : Nat} (earlier : List Operation) {later : List Operation}
    (undisturbed : ∀ operation ∈ later, operation.disturbs address = false) (instr : Instr) :
    let operations := earlier ++ .insertBreakpoint address :: later
    (markAt address operations).answer instr =
      if later.count (.fetch address) % 2 = 0 then .paused
      else .probed instr (probesAt address operations) := by
  intro operations
  have inserted : markAt address operations = later.foldl (Mark.after address)
      ((markAt address earlier).after address (.insertBreakpoint address)) := by
    rw [markAt, List.foldl_append, List.foldl_cons]
    rfl
  have sets :
      ((markAt address earlier).after address (.insertBreakpoint address)).breakpoint = true := by
    simp [Mark.after, breaksAfter]
  obtain ⟨breaks, fired⟩ := mark_of_undisturbed undisturbed sets
  rw [← inserted] at breaks fired
  have armed :
      ((markAt address earlier).after address (.insertBreakpoint address)).fired = false := by
    simp [Mark.after, Mark.firedAfter]
  rw [armed, Bool.false_xor] at fired
  rw [Mark.answer, breaks, fired, probes_markAt]
  by_cases even : later.count (.fetch address) % 2 = 0
  · simp [even]
  · have odd : later.count (.fetch address) % 2 = 1 := by omega
    simp [odd]

theorem answer_of_removed {address : Nat} (earlier : List Operation) {later : List Operation}
    (uninserted : .insertBreakpoint address ∉ later) (instr : Instr) :
    let operations := earlier ++ .removeBreakpoint address :: later
    (markAt address operations).breakpoint = false ∧
      (markAt address operations).answer instr =
        if probesAt address operations = [] then .plain instr
        else .probed instr (probesAt address operations) := by
  intro operations
  have gone : (markAt address operations).breakpoint = false := by
    rw [breakpoint_markAt, breaksAt, List.foldl_append, List.foldl_cons]
    simpa [breaksAfter] using breaks_of_uninserted uninserted
  refine ⟨gone, ?_⟩
  rw [Mark.answer, gone, probes_markAt]
  simp

theorem wordIndex_after (size : Nat) (operations : List Operation) (address : Nat) :
    (∃ index, (after size operations).wordIndex address = .ok index) ↔
      address % 2 = 0 ∧ address / 2 < size / 2 := by
  rw [wordIndex, (sound_after size operations).slots]
  split
  · next even =>
    split
    · next inside => simp [even, inside]
    · next outside => simp [outside]
  · next odd => simp [odd]

theorem removeBreakpoint_snd (f : Flash) (address : Nat) :
    (f.removeBreakpoint address).2 = f.hasBreakpoint address := by
  unfold removeBreakpoint hasBreakpoint
  cases f.wordIndex address with
  | error fault => rfl
  | ok index =>
      dsimp only
      cases f.slot index with
      | empty | ready instr => rfl
      | attached attachment => rfl

theorem hasBreakpoint_after (size : Nat) (operations : List Operation) (address : Nat) :
    (after size operations).hasBreakpoint address = true ↔
      (address % 2 = 0 ∧ address / 2 < size / 2) ∧ breaksAt address operations = true := by
  rw [← wordIndex_after size operations address]
  cases found : (after size operations).wordIndex address with
  | error fault => simp [hasBreakpoint, found]
  | ok index =>
      obtain ⟨place, inside⟩ := wordIndex_eq_ok found
      rw [(sound_after size operations).slots] at inside
      rw [hasBreakpoint_of_wordIndex found, (marked_after size operations inside).slotBreaks_eq,
        breakpoint_markAt, ← place]
      simp

/-- A breakpoint pauses exactly once before each execution of its instruction.

Once a breakpoint was set, and as long as it is left alone, the fetches of its address answer in
turn with a pause and with the current instruction and its current probes, a pause coming first.
It is removed exactly if a history left it there. After that no fetch pauses until another is set:
the probes that are attached keep firing, and the slot is wrapped only while there are any. -/
theorem breakpoint_pauses_once (size : Nat) :
    (∀ earlier later address next,
      (after size earlier).insertBreakpoint address = .ok next →
      (∀ operation ∈ later, operation.disturbs address = false) →
        let operations := earlier ++ .insertBreakpoint address :: later
        ((after size operations).fetch address).map Prod.fst =
          .ok (if later.count (.fetch address) % 2 = 0 then .paused
            else .probed (instrOf size (contents size operations) (address / 2))
              (probesAt address operations))) ∧
    (∀ operations address,
      ((after size operations).removeBreakpoint address).2 =
          (after size operations).hasBreakpoint address ∧
        ((after size operations).hasBreakpoint address = true ↔
          (address % 2 = 0 ∧ address / 2 < size / 2) ∧ breaksAt address operations = true)) ∧
    ∀ earlier later address, address % 2 = 0 → address / 2 < size / 2 →
      .insertBreakpoint address ∉ later →
        let operations := earlier ++ .removeBreakpoint address :: later
        let probes := probesAt address operations
        let current := instrOf size (contents size operations) (address / 2)
        ((after size operations).fetch address).map Prod.fst =
            .ok (if probes = [] then .plain current else .probed current probes) ∧
          (slotAttached ((after size operations).slot (address / 2)) = true ↔ probes ≠ []) := by
  refine ⟨?pauses, ?removal, ?gone⟩
  case pauses =>
    intro earlier later address next inserted undisturbed operations
    have word : ∃ index, (after size earlier).wordIndex address = .ok index := by
      unfold Flash.insertBreakpoint at inserted
      cases found : (after size earlier).wordIndex address with
      | error fault => simp [found, bind, Except.bind] at inserted
      | ok index => exact ⟨index, rfl⟩
    obtain ⟨even, inside⟩ := (wordIndex_after size earlier address).mp word
    have place : address = 2 * (address / 2) := by omega
    have fetches := fetch_after size operations inside
    rw [← place] at fetches
    rw [fetches, answer_of_inserted earlier undisturbed]
  case removal =>
    intro operations address
    exact ⟨removeBreakpoint_snd _ _, hasBreakpoint_after size operations address⟩
  case gone =>
    intro earlier later address even inside uninserted operations probes current
    have place : address = 2 * (address / 2) := by omega
    obtain ⟨gone, answers⟩ := answer_of_removed earlier uninserted current
    have marked := marked_after size operations inside
    rw [← place] at marked
    have fetches := fetch_after size operations inside
    rw [← place] at fetches
    refine ⟨fetches.trans (congrArg Except.ok answers), ?_⟩
    rw [marked.slotAttached_iff, gone, probes_markAt]
    exact or_iff_left Bool.false_ne_true

/-- The second word of a jump with a probe is rewritten between its pause and its execution; then
the breakpoint and the probe are taken away. -/
theorem breakpoint_pauses_once_rewritten_jump :
    let earlier : List Operation := [.load 0 [0x0C, 0x94, 0x10, 0x00], .insertProbe 0 ⟨7⟩]
    let executed : List Operation := [.fetch 0, .set 2 0x20, .fetch 0]
    let stopped := earlier ++ .insertBreakpoint 0 :: executed
    ((after 4 (earlier ++ [.insertBreakpoint 0])).fetch 0).map Prod.fst = .ok .paused ∧
      ((after 4 (earlier ++ .insertBreakpoint 0 :: executed.take 2)).fetch 0).map Prod.fst =
        .ok (.probed (.absolute false 0x20) [⟨7⟩]) ∧
      ((after 4 stopped).fetch 0).map Prod.fst = .ok .paused ∧
      ((after 4 (stopped ++ [.removeBreakpoint 0, .removeProbe 0 ⟨7⟩])).fetch 0).map Prod.fst =
        .ok (.plain (.absolute false 0x20)) := by
  intro earlier executed stopped
  have pauses := (breakpoint_pauses_once 4).1 earlier
  refine ⟨?before, ?execution, ?again, ?removed⟩
  case before => exact pauses [] 0 _ rfl (by decide)
  case execution =>
    have current : instrOf 4 (contents 4 (earlier ++ .insertBreakpoint 0 :: executed.take 2)) 0 =
        .absolute false 0x20 := by decide
    rw [← current]
    exact pauses (executed.take 2) 0 _ rfl (by decide)
  case again =>
    have even : executed.count (.fetch 0) % 2 = 0 := by decide
    exact (pauses executed 0 _ rfl (by decide)).trans (congrArg Except.ok (if_pos even))
  case removed =>
    have current : instrOf 4
        (contents 4 (stopped ++ [.removeBreakpoint 0, .removeProbe 0 ⟨7⟩])) 0 =
          .absolute false 0x20 := by decide
    rw [← current]
    exact ((breakpoint_pauses_once 4).2.2 stopped [.removeProbe 0 ⟨7⟩] 0 rfl (by decide)
      (by decide)).1

end Avr.Flash

import Avr.Proofs.Flash.Refresh

/-!
Contract: remembered instructions always agree with flash.

Owns:
- the operations on flash as data, and what a list of them does;
- the contents of flash, which only writes change;
- agreement of every slot with the contents, after any operations.

A write that is refused, an instruction that is fetched, and everything that is attached or removed
leave the contents alone. A last byte without a partner belongs to no instruction.
-/

namespace Avr.Flash

open Avr.Isa Avr.Memory

inductive Operation where
  | set (address : Nat) (value : UInt8)
  | load (offset : Nat) (values : List UInt8)
  | fetch (pc : Nat)
  | insertProbe (address : Nat) (probe : Handle)
  | removeProbe (address : Nat) (probe : Handle)
  | insertBreakpoint (address : Nat)
  | removeBreakpoint (address : Nat)
  | rearm
deriving DecidableEq, Repr

def Operation.writes : Operation → Bool
  | .set _ _ | .load _ _ => true
  | _ => false

/-- What an operation that may be refused leaves behind. -/
def kept (f : Flash) : Except Fault Flash → Flash
  | .ok next => next
  | .error _ => f

def apply (f : Flash) : Operation → Flash
  | .set address value => f.kept (f.set address value)
  | .load offset values => f.kept (f.load offset values)
  | .fetch pc => f.kept ((f.fetch pc).map Prod.snd)
  | .insertProbe address probe => f.kept (f.insertProbe address probe)
  | .removeProbe address probe => (f.removeProbe address probe).1
  | .insertBreakpoint address => f.kept (f.insertBreakpoint address)
  | .removeBreakpoint address => (f.removeBreakpoint address).1
  | .rearm => f.rearm

/-- Erased flash of a size after some operations. -/
def after (size : Nat) (operations : List Operation) : Flash :=
  operations.foldl apply (new size)

/-! ### Contents -/

/-- The bytes after an operation on flash of a size. -/
def write (size : Nat) (bytes : Nat → UInt8) : Operation → Nat → UInt8
  | .set address value, position =>
    if address < size ∧ position = address then value else bytes position
  | .load offset values, position =>
    if offset + values.length ≤ size ∧ offset ≤ position then
      values.getD (position - offset) (bytes position)
    else
      bytes position
  | _, position => bytes position

/-- What flash of a size contains after some operations, beginning with erased bytes. -/
def contents (size : Nat) (operations : List Operation) : Nat → UInt8 :=
  operations.foldl (write size) fun _ => erasedByte

def wordOf (size : Nat) (bytes : Nat → UInt8) (index : Nat) : UInt16 :=
  if 2 * index + 1 < size then wordOfBytes (bytes (2 * index)) (bytes (2 * index + 1))
  else erasedWord

/-- The instruction that the contents hold at a word. -/
def instrOf (size : Nat) (bytes : Nat → UInt8) (index : Nat) : Instr :=
  Instr.decode (wordOf size bytes index) (wordOf size bytes (index + 1))

/-- The flash has a size and contains the given bytes. -/
def Contains (f : Flash) (size : Nat) (bytes : Nat → UInt8) : Prop :=
  ∀ position, f.segment.bytes[position]? = if position < size then some (bytes position) else none

theorem contains_new (size : Nat) : (new size).Contains size fun _ => erasedByte := by
  intro position
  simp only [new, Segment.new]
  exact Array.getElem?_replicate

theorem Contains.size_eq {f : Flash} {size : Nat} {bytes : Nat → UInt8}
    (contains : f.Contains size bytes) : f.segment.bytes.size = size := by
  apply Nat.le_antisymm
  · rw [← Array.getElem?_eq_none_iff, contains, if_neg (Nat.lt_irrefl size)]
  · rw [← Nat.not_lt]
    intro smaller
    have missing := contains f.segment.bytes.size
    rw [if_pos smaller, Array.getElem?_eq_none (Nat.le_refl _)] at missing
    simp at missing

theorem Contains.decodeAt_eq {f : Flash} {size : Nat} {bytes : Nat → UInt8}
    (contains : f.Contains size bytes) (index : Nat) :
    f.decodeAt index = instrOf size bytes index := by
  have words : ∀ index, f.word index = wordOf size bytes index := by
    intro index
    rw [word, contains (2 * index), contains (2 * index + 1), wordOf]
    by_cases whole : 2 * index + 1 < size
    · rw [if_pos whole, if_pos whole, if_pos (Nat.lt_of_succ_lt whole)]
    · rw [if_neg whole, if_neg whole]
      split
      · next _ missing => simp at missing
      · rfl
  rw [decodeAt, words, words, instrOf]

/-! ### Writes -/

theorem getElem?_overwrite (bytes : Array UInt8) (offset : Nat) (values : List UInt8)
    (position : Nat) (fits : offset + values.length ≤ bytes.size) :
    (Segment.overwrite bytes offset values)[position]? =
      if offset ≤ position ∧ position < offset + values.length then values[position - offset]?
      else bytes[position]? := by
  induction values generalizing bytes offset with
  | nil =>
      rw [Segment.overwrite, if_neg]
      simp
  | cons value rest inductionHypothesis =>
      rw [List.length_cons] at fits
      rw [Segment.overwrite, inductionHypothesis _ _ (by simp; omega), List.length_cons]
      by_cases here : position = offset
      · subst here
        rw [if_neg (by omega), if_pos (by omega), Nat.sub_self, List.getElem?_cons_zero,
          Array.getElem?_setIfInBounds_self_of_lt (by omega)]
      · rw [Array.getElem?_setIfInBounds_ne (Ne.symm here)]
        by_cases later : offset < position
        · have next : position - offset = position - (offset + 1) + 1 := by omega
          rw [next, List.getElem?_cons_succ]
          congr 1
          exact propext (by omega)
        · rw [if_neg (by omega), if_neg (by omega)]

theorem kept_set (f : Flash) (address : Nat) (value : UInt8) :
    f.kept (f.set address value) =
      if address < f.segment.bytes.size then
        ({ f with segment :=
          { f.segment with bytes := f.segment.bytes.setIfInBounds address value } }).invalidate
            (address / 2)
      else f := by
  unfold Flash.set Segment.set
  split <;> rfl

theorem kept_load (f : Flash) (offset : Nat) (values : List UInt8) :
    f.kept (f.load offset values) =
      if offset + values.length ≤ f.segment.bytes.size then
        ({ f with segment :=
          { f.segment with
            bytes := Segment.overwrite f.segment.bytes offset values } }).invalidateFrom
              (offset / 2) ((offset + values.length + 1) / 2 + 1 - offset / 2)
      else f := by
  unfold Flash.load Segment.load
  split <;> rfl

/-- A change of bytes leaves only those slots stale whose four bytes it touches. -/
theorem agreesOutside_of_bytes {f : Flash} {segment : Segment} {stale : Nat → Prop}
    (coherent : f.Coherent)
    (same : ∀ index, ¬ stale index → ∀ position, 2 * index ≤ position → position < 2 * index + 4 →
      segment.bytes[position]? = f.segment.bytes[position]?) :
    ({ f with segment } : Flash).AgreesOutside stale := by
  intro index fresh instr remembers
  have unchanged : ({ f with segment } : Flash).decodeAt index = f.decodeAt index := by
    simp only [decodeAt, word]
    rw [same index fresh (2 * index) (by omega) (by omega),
      same index fresh (2 * index + 1) (by omega) (by omega),
      same index fresh (2 * (index + 1)) (by omega) (by omega),
      same index fresh (2 * (index + 1) + 1) (by omega) (by omega)]
  rw [unchanged]
  exact coherent index instr remembers

theorem agrees_set {f : Flash} (coherent : f.Coherent) (address : Nat)
    (value : UInt8) : (f.apply (.set address value)).Coherent := by
  intro index
  rw [apply, kept_set]
  split
  · refine (agreesOutside_invalidate ?_ : AgreesOutside _ fun _ => False) index id
    apply agreesOutside_of_bytes coherent
    intro other fresh position low high
    apply Array.getElem?_setIfInBounds_ne
    intro touched
    apply fresh
    omega
  · exact coherent index

theorem agrees_load {f : Flash} (coherent : f.Coherent) (offset : Nat)
    (values : List UInt8) : (f.apply (.load offset values)).Coherent := by
  intro index
  rw [apply, kept_load]
  split
  · next fits =>
    refine (agreesOutside_invalidateFrom ?_ : AgreesOutside _ fun _ => False) index id
    apply agreesOutside_of_bytes coherent
    intro other fresh position low high
    rw [getElem?_overwrite _ _ _ _ fits, if_neg]
    intro touched
    apply fresh
    omega
  · exact coherent index

/-! ### Instrumentation and fetches -/

/-- The flash as it was, but for one slot, which remembers what its word decodes to if it did
before. -/
def Rewrapped (f next : Flash) : Prop :=
  ∃ index slot, next = f.setSlot index slot ∧
    (f.Agrees index → ∀ instr, remembered? slot = some instr → instr = f.decodeAt index)

theorem Agrees.attached {f : Flash} {index : Nat} {attachment : Attachment}
    (agrees : f.Agrees index) (attached : f.slot index = .attached attachment) :
    attachment.instr = f.decodeAt index :=
  agrees attachment.instr (by rw [attached]; rfl)

theorem instr_attachment {f : Flash} {index : Nat} (agrees : f.Agrees index) :
    (f.attachment index).instr = f.decodeAt index := by
  unfold Flash.attachment
  split
  · next attachment attached => exact agrees.attached attached
  · next instr ready => exact agrees instr (by rw [ready]; rfl)
  · rfl

theorem remembered?_settle (attachment : Attachment) :
    remembered? (settle attachment) = some attachment.instr := by
  unfold settle
  split <;> rfl

theorem apply_fetch (f : Flash) (pc : Nat) :
    f.apply (.fetch pc) = f ∨ Rewrapped f (f.apply (.fetch pc)) := by
  simp only [apply, fetch]
  cases f.wordIndex pc with
  | error fault => exact .inl rfl
  | ok index =>
      simp only [bind, Except.bind]
      split
      · exact .inl rfl
      · next attachment attached =>
        right
        split
        · refine ⟨index, .attached { attachment with fired := true }, rfl, fun agrees => ?_⟩
          simp [remembered?, agrees.attached attached]
        · refine ⟨index, .attached { attachment with fired := false }, rfl, fun agrees => ?_⟩
          simp [remembered?, agrees.attached attached]
      · exact .inr ⟨index, .ready (f.decodeAt index), rfl, fun _ => by simp [remembered?]⟩

theorem apply_readOnly {operation : Operation} (f : Flash) (readOnly : operation.writes = false) :
    f.apply operation = f ∨ Rewrapped f (f.apply operation) ∨ f.apply operation = f.rearm := by
  cases operation with
  | set | load => simp [Operation.writes] at readOnly
  | fetch pc => exact (apply_fetch f pc).imp_right .inl
  | insertProbe address probe =>
      simp only [apply, insertProbe]
      cases f.wordIndex address with
      | error fault => exact .inl rfl
      | ok index =>
          refine .inr (.inl ⟨index, _, rfl, fun agrees => ?_⟩)
          simp [remembered?, instr_attachment agrees]
  | insertBreakpoint address =>
      simp only [apply, insertBreakpoint]
      cases f.wordIndex address with
      | error fault => exact .inl rfl
      | ok index =>
          refine .inr (.inl ⟨index, _, rfl, fun agrees => ?_⟩)
          simp [remembered?, instr_attachment agrees]
  | removeProbe address probe =>
      simp only [apply, removeProbe]
      split
      · exact .inl rfl
      · next index _ =>
        split
        · next attachment attached =>
          refine .inr (.inl ⟨index, _, rfl, fun agrees => ?_⟩)
          simp [remembered?_settle, agrees.attached attached]
        · exact .inl rfl
  | removeBreakpoint address =>
      simp only [apply, removeBreakpoint]
      split
      · exact .inl rfl
      · next index _ =>
        split
        · next attachment attached =>
          refine .inr (.inl ⟨index, _, rfl, fun agrees => ?_⟩)
          simp [remembered?_settle, agrees.attached attached]
        · exact .inl rfl
  | rearm => exact .inr (.inr rfl)

theorem segment_apply {operation : Operation} (f : Flash) (readOnly : operation.writes = false) :
    (f.apply operation).segment = f.segment := by
  rcases apply_readOnly f readOnly with same | ⟨index, slot, changed, _⟩ | rearmed
  · rw [same]
  · rw [changed, segment_setSlot]
  · rw [rearmed]
    rfl

theorem size_slots_apply (f : Flash) (operation : Operation) :
    (f.apply operation).slots.size = f.slots.size := by
  cases writes : operation.writes with
  | false =>
      rcases apply_readOnly f writes with same | ⟨index, slot, changed, _⟩ | rearmed
      · rw [same]
      · rw [changed, size_slots_setSlot]
      · simp [rearmed, rearm]
  | true =>
      cases operation with
      | set address value =>
          rw [apply, kept_set]
          split <;> simp
      | load offset values =>
          rw [apply, kept_load]
          split <;> simp
      | _ => simp [Operation.writes] at writes

theorem remembered?_slot_rearm (f : Flash) (index : Nat) :
    remembered? (f.rearm.slot index) = remembered? (f.slot index) := by
  simp only [Flash.slot, rearm, Array.getD_eq_getD_getElem?, Array.getElem?_map]
  cases f.slots[index]? with
  | none => rfl
  | some slot => cases slot <;> rfl

theorem agrees_apply {f : Flash} (coherent : f.Coherent) (operation : Operation) :
    (f.apply operation).Coherent := by
  cases writes : operation.writes with
  | false =>
      intro other
      rcases apply_readOnly f writes with same | ⟨index, slot, changed, agrees⟩ | rearmed
      · rw [same]
        exact coherent other
      · rw [changed]
        refine (agreesOutside_setSlot ?_ (agrees (coherent index)) :
          AgreesOutside _ fun _ => False) other id
        exact fun another _ => coherent another
      · intro instr remembers
        rw [rearmed, remembered?_slot_rearm] at remembers
        rw [rearmed]
        exact coherent other instr remembers
  | true =>
      cases operation with
      | set address value => exact agrees_set coherent address value
      | load offset values => exact agrees_load coherent offset values
      | _ => simp [Operation.writes] at writes

/-! ### Contents after an operation -/

theorem contains_apply {f : Flash} {size : Nat} {bytes : Nat → UInt8}
    (contains : f.Contains size bytes) (operation : Operation) :
    (f.apply operation).Contains size (write size bytes operation) := by
  cases operation with
  | set address value =>
      intro position
      rw [apply, kept_set, contains.size_eq]
      split
      · next inside =>
        rw [segment_invalidate, Array.getElem?_setIfInBounds, contains.size_eq, contains]
        simp only [write, inside, true_and]
        by_cases here : address = position
        · subst here
          simp [inside]
        · simp [here, Ne.symm here]
      · next outside =>
        rw [contains]
        simp [write, outside]
  | load offset values =>
      intro position
      rw [apply, kept_load]
      split
      · next fits =>
        rw [segment_invalidateFrom, getElem?_overwrite _ _ _ _ fits, contains]
        rw [contains.size_eq] at fits
        simp only [write, fits, true_and]
        by_cases covered : offset ≤ position ∧ position < offset + values.length
        · have within : position - offset < values.length := by omega
          rw [if_pos covered, if_pos (by omega), if_pos covered.1,
            List.getD_eq_getElem?_getD, List.getElem?_eq_getElem within]
          rfl
        · rw [if_neg covered]
          by_cases before : offset ≤ position
          · rw [if_pos before, List.getD_eq_getElem?_getD, List.getElem?_eq_none (by omega)]
            rfl
          · rw [if_neg before]
      · next misfit =>
        rw [contains.size_eq] at misfit
        rw [contains]
        simp [write, misfit]
  | _ =>
      rw [Contains, segment_apply f rfl]
      exact contains

/-! ### After any operations -/

structure Sound (f : Flash) (size : Nat) (bytes : Nat → UInt8) : Prop where
  contains : f.Contains size bytes
  agrees : f.Coherent
  slots : f.slots.size = size / 2

theorem sound_new (size : Nat) : (new size).Sound size fun _ => erasedByte where
  contains := contains_new size
  agrees := by
    intro index instr remembers
    have empty : (new size).slot index = .empty := by
      simp [Flash.slot, new, Array.getD_eq_getD_getElem?, Array.getElem?_replicate]
      split <;> rfl
    simp [empty, remembered?] at remembers
  slots := by simp [new]

theorem Sound.foldl {f : Flash} {size : Nat} {bytes : Nat → UInt8} (sound : f.Sound size bytes)
    (operations : List Operation) :
    (operations.foldl apply f).Sound size (operations.foldl (write size) bytes) := by
  induction operations generalizing f bytes with
  | nil => exact sound
  | cons operation rest inductionHypothesis =>
      apply inductionHypothesis
      exact
        { contains := contains_apply sound.contains operation
          agrees := agrees_apply sound.agrees operation
          slots := by rw [size_slots_apply, sound.slots] }

theorem sound_after (size : Nat) (operations : List Operation) :
    (after size operations).Sound size (contents size operations) :=
  (sound_new size).foldl operations

theorem wordIndex_even {f : Flash} {index : Nat} (inside : index < f.slots.size) :
    f.wordIndex (2 * index) = .ok index := by
  have even : 2 * index % 2 = 0 := by omega
  have half : 2 * index / 2 = index := by omega
  rw [wordIndex, if_pos even, half, if_pos inside]

theorem Coherent.of_set {f next : Flash} (coherent : f.Coherent) {address : Nat} {value : UInt8}
    (wrote : f.set address value = .ok next) : next.Coherent := by
  have after := agrees_apply coherent (.set address value)
  rwa [apply, wrote] at after

theorem Coherent.of_load {f next : Flash} (coherent : f.Coherent) {offset : Nat}
    {values : List UInt8} (wrote : f.load offset values = .ok next) : next.Coherent := by
  have after := agrees_apply coherent (.load offset values)
  rwa [apply, wrote] at after

def delivered? : Fetched → Option Instr
  | .plain instr | .probed instr _ => some instr
  | .paused => none

/-- The probes that a fetched instruction has of its own. -/
def ownProbes : Fetched → HandleList
  | .probed _ probes => probes
  | .plain _ | .paused => []

/-- A fetch delivers what the bytes say, wherever it succeeds. -/
theorem Coherent.of_fetch {f next : Flash} (coherent : f.Coherent) {pc : Nat} {fetched : Fetched}
    (fetches : f.fetch pc = .ok (fetched, next)) :
    next.Coherent ∧
      ∀ instr, delivered? fetched = some instr → ∃ index, instr = f.decodeAt index := by
  have after : f.apply (.fetch pc) = next := by
    rw [apply, fetches]
    rfl
  refine ⟨after ▸ agrees_apply coherent (.fetch pc), ?_⟩
  intro instr delivers
  rw [fetch] at fetches
  cases found : f.wordIndex pc with
  | error fault => simp [found, bind, Except.bind] at fetches
  | ok index =>
      refine ⟨index, ?_⟩
      simp only [found, bind, Except.bind, pure, Except.pure] at fetches
      split at fetches
      · next remembered ready =>
        cases fetches
        cases delivers
        exact coherent index instr (by rw [ready]; rfl)
      · next attachment attached =>
        split at fetches
        · cases fetches
          cases delivers
        · cases fetches
          cases delivers
          exact (coherent index).attached attached
      · cases fetches
        cases delivers
        rfl

theorem instr_of_agrees {f : Flash} {index : Nat} (inside : index < f.slots.size)
    (agrees : f.Agrees index) : f.instr (2 * index) = .ok (f.decodeAt index) := by
  rw [Flash.instr, wordIndex_even inside]
  simp only [bind, Except.bind, pure, Except.pure]
  split
  · next instr ready => rw [agrees instr (by rw [ready]; rfl)]
  · next attachment attached => rw [agrees.attached attached]
  · rfl

theorem Sound.instr_eq {f : Flash} {size : Nat} {bytes : Nat → UInt8} (sound : f.Sound size bytes)
    {index : Nat} (inside : index < size / 2) :
    f.instr (2 * index) = .ok (instrOf size bytes index) := by
  rw [← sound.contains.decodeAt_eq]
  exact instr_of_agrees (by rw [sound.slots]; exact inside) (sound.agrees index)

theorem Sound.fetch_eq {f : Flash} {size : Nat} {bytes : Nat → UInt8} (sound : f.Sound size bytes)
    {index : Nat} (inside : index < size / 2) :
    ∃ fetched next, f.fetch (2 * index) = .ok (fetched, next) ∧
      (fetched = .paused ∨ delivered? fetched = some (instrOf size bytes index)) := by
  rw [Flash.fetch, wordIndex_even (by rw [sound.slots]; exact inside), ← sound.contains.decodeAt_eq]
  simp only [bind, Except.bind]
  split
  · next instr ready =>
    refine ⟨_, _, rfl, .inr ?_⟩
    rw [delivered?, sound.agrees index instr (by rw [ready]; rfl)]
  · next attachment attached =>
    split
    · exact ⟨_, _, rfl, .inl rfl⟩
    · refine ⟨_, _, rfl, .inr ?_⟩
      rw [delivered?, (sound.agrees index).attached attached]
  · exact ⟨_, _, rfl, .inr rfl⟩

/-- What an address decodes to depends on the contents alone. -/
theorem Sound.instr_congr {f g : Flash} {size : Nat} {bytes : Nat → UInt8}
    (soundLeft : f.Sound size bytes) (soundRight : g.Sound size bytes) (address : Nat) :
    f.instr address = g.instr address := by
  by_cases inside : address % 2 = 0 ∧ address / 2 < size / 2
  · have even : address = 2 * (address / 2) := by omega
    rw [even, soundLeft.instr_eq inside.2, soundRight.instr_eq inside.2]
  · have refused : ∀ h : Flash, h.Sound size bytes →
        h.instr address = .error
          (if address % 2 = 0 then .outOfBounds "flash" address else .misaligned address) := by
      intro h sound
      rw [Flash.instr, wordIndex, sound.slots]
      split
      · next aligned =>
        rw [if_neg fun within => inside ⟨aligned, within⟩]
        rfl
      · rfl
    rw [refused f soundLeft, refused g soundRight]

/-- After any operations flash holds what was written, and every word is read and fetched as the
instruction that is written there now, whatever was remembered or attached before.

The contents change by writes alone, so nothing that is attached, removed or fetched changes a byte
or what any word decodes to. -/
theorem instructions_follow_contents (size : Nat) (operations : List Operation) (index : Nat)
    (inside : index < size / 2) :
    let flash := after size operations
    let current := instrOf size (contents size operations) index
    flash.Contains size (contents size operations) ∧
      flash.instr (2 * index) = .ok current ∧
      (∃ fetched next, flash.fetch (2 * index) = .ok (fetched, next) ∧
        (fetched = .paused ∨ delivered? fetched = some current)) ∧
      ∀ operation : Operation, operation.writes = false →
        (flash.apply operation).segment = flash.segment ∧
          ∀ address, (flash.apply operation).instr address = flash.instr address := by
  intro flash current
  have sound := sound_after size operations
  refine ⟨sound.contains, sound.instr_eq inside, sound.fetch_eq inside, ?_⟩
  intro operation readOnly
  have later : (flash.apply operation).Sound size (contents size operations) :=
    { contains := by
        rw [Contains, segment_apply flash readOnly]
        exact sound.contains
      agrees := agrees_apply sound.agrees operation
      slots := by rw [size_slots_apply, sound.slots] }
  exact ⟨segment_apply flash readOnly, later.instr_congr sound⟩

/-- The second word of a jump is rewritten under a breakpoint that has fired already. -/
theorem instructions_follow_contents_rewritten_jump :
    let operations : List Operation :=
      [.load 0 [0x0C, 0x94, 0x10, 0x00], .fetch 0, .insertBreakpoint 0, .fetch 0, .set 2 0x20]
    0 < 4 / 2 ∧ (after 4 operations).instr (2 * 0) = .ok (.absolute false 0x20) ∧
      ∃ fetched next, (after 4 operations).fetch (2 * 0) = .ok (fetched, next) ∧
        (fetched = .paused ∨ delivered? fetched = some (.absolute false 0x20)) := by
  intro operations
  have inside : 0 < 4 / 2 := by decide
  have current : instrOf 4 (contents 4 operations) 0 = .absolute false 0x20 := by decide
  have follows := instructions_follow_contents 4 operations 0 inside
  rw [current] at follows
  exact ⟨inside, follows.2.1, follows.2.2.1⟩

end Avr.Flash

import Avr.Proofs.Machine.FastPath
import Avr.Proofs.Machine.Unwatched

/-!
Contract: the data space of a machine as one flat memory.

Owns:
- what a program sees at each address, and the machine with the byte at one address replaced;
- machines with the IO registers of a bare part, on which reads and writes come to these two;
- instructions that reach the same byte along different ways.

Of what is called meanwhile only probes of the global interrupt flag matter, which a write of the
status register can set off, and the receiver of accesses outside of the data space.
-/

namespace Avr

/-- The IO registers of the core fit into a window that instructions can address, apart from each
other. -/
structure Part.Bare (part : Part) : Prop where
  narrow : part.ioSize ≤ 256
  status : part.statusRegister < part.ioSize
  low : part.stackLow < part.ioSize
  high : part.stackHigh < part.ioSize
  apart : [part.statusRegister, part.stackLow, part.stackHigh].Nodup

namespace Part.Bare

variable {part : Part} (bare : part.Bare)
include bare

theorem low_ne : part.stackLow ≠ part.statusRegister := by
  have apart := bare.apart
  simp only [List.nodup_cons, List.mem_cons, not_or] at apart
  exact Ne.symm apart.1.1

theorem high_ne : part.stackHigh ≠ part.statusRegister := by
  have apart := bare.apart
  simp only [List.nodup_cons, List.mem_cons, List.not_mem_nil, or_false, not_or] at apart
  exact Ne.symm apart.1.2

end Part.Bare

namespace Machine

open Avr.Io Avr.Isa Avr.Memory

variable {World : Type} {env : Environment World} {m next : Machine World}

/-! ### Machines of a bare part -/

/-- The kinds of IO registers of a bare part, each at its number. -/
inductive Placed (part : Part) (register : Nat) : Kind → Prop where
  | plain (value : UInt8)
      (other : register ∉ [part.statusRegister, part.stackLow, part.stackHigh]) :
      Placed part register (.plain value)
  | status (place : register = part.statusRegister) : Placed part register .status
  | stackLow (value : UInt8) (place : register = part.stackLow) :
      Placed part register (.stackLow value)
  | stackHigh (value : UInt8) (place : register = part.stackHigh) :
      Placed part register (.stackHigh value)

theorem Placed.store {part : Part} {register : Nat} {kind : Kind}
    (placed : Placed part register kind) (value : UInt8) :
    Placed part register (kind.store value) := by
  cases placed with
  | plain _ other => exact .plain value other
  | status place => exact .status place
  | stackLow _ place => exact .stackLow value place
  | stackHigh _ place => exact .stackHigh value place

/-- A machine without watches whose IO registers are those of a bare part. -/
structure Flat (m : Machine World) : Prop where
  part : m.part.Bare
  unwatched : m.Unwatched
  bytes : m.data.bytes.size = m.part.dataSize
  window : m.io.size = m.part.ioSize
  registers : ∀ register < m.part.ioSize,
    ∃ kind, m.io[register]? = some (.bare kind) ∧ Placed m.part register kind

/-- What an IO register shows: the flags at the number of the status register, and elsewhere what
is stored. -/
def shownIo (m : Machine World) (register : Nat) : UInt8 :=
  if register = m.part.statusRegister then m.status.byte else m.ioStored register

theorem shownIo_of_ne {register : Nat} (other : register ≠ m.part.statusRegister) :
    m.shownIo register = m.ioStored register :=
  if_neg other

/-- What a program sees at an address; outside of the data space that is up to the receiver. -/
def shown (env : Environment World) (m : Machine World) (address : Nat) : UInt8 :=
  match m.ioIndex? address with
  | some register => m.shownIo register
  | none => (m.data.read env.toReporting address m.world).1

/-- The machine with another byte at an address. -/
def place (m : Machine World) (address : Nat) (value : UInt8) : Machine World :=
  match m.ioIndex? address with
  | some register =>
    if register = m.part.statusRegister then { m with status := .ofByte value }
    else m.setIoStored register value
  | none => m.setByteAt address value

/-- Nothing has changed that is shown in the data space. -/
structure SameSpace (m next : Machine World) : Prop where
  data : next.data = m.data
  io : next.io = m.io
  status : next.status = m.status
  part : next.part = m.part

instance : IsPreorder (Machine World) SameSpace where
  refl _ := ⟨rfl, rfl, rfl, rfl⟩
  trans _ _ _ first rest :=
    { data := rest.data.trans first.data
      io := rest.io.trans first.io
      status := rest.status.trans first.status
      part := rest.part.trans first.part }

/-- Probes of the global interrupt flag leave the data space alone, and what is read outside of it
depends on the access alone. -/
structure Inert (env : Environment World) (m : Machine World) : Prop where
  enabled : ∀ probe ∈ m.interrupts.globalProbes,
    Action.Respects SameSpace (env.notify probe (.enabled 0))
  disabled : ∀ probe ∈ m.interrupts.globalProbes,
    Action.Respects SameSpace (env.notify probe (.disabled 0))
  outside : ∀ receiver, m.data.reporter = some receiver → ∀ segment address blank world world',
    (env.readOutside receiver segment address blank world).1 =
      (env.readOutside receiver segment address blank world').1

theorem sameSpace_writeMemory (address : Nat) (value : UInt8) :
    SameSpace (m.setByteAt address value) (writeMemory env address value m).2 := by
  rcases Nat.lt_or_ge address m.data.bytes.size with inside | outside
  · rw [writeMemory_inside inside]
    exact refl_of SameSpace _
  · obtain ⟨world, written⟩ := writeMemory_outside env outside value
    rw [written, setByteAt_outside outside]
    exact ⟨rfl, rfl, rfl, rfl⟩

/-! ### Probes of the global flag -/

theorem respects_notifyAll {R : Machine World → Machine World → Prop}
    [IsPreorder (Machine World) R] {handles : HandleList} {hook : Hook}
    (each : ∀ handle ∈ handles, Action.Respects R (env.notify handle hook)) :
    Action.Respects R (notifyAll env handles hook) := by
  induction handles with
  | nil => exact .pure _
  | cons handle rest inductionHypothesis =>
      exact .bind (each handle List.mem_cons_self) fun _ =>
        inductionHypothesis fun other member => each other (List.mem_cons_of_mem handle member)

/-- Writing the status register sets the flags, whether or not `I` changes. -/
theorem Inert.sameSpace_setStatus (inert : Inert env m) (value : UInt8) :
    SameSpace { m with status := .ofByte value } (setStatus env value m).2 := by
  have enable : SameSpace { m with status := { Status.ofByte value with i := true } }
      (enableInterrupts env
        { m with status := { Status.ofByte value with i := m.status.i } }).2 := by
    have called := (respects_notifyAll inert.enabled).related
      (allowed { m with status := { Status.ofByte value with i := m.status.i } })
    exact ⟨called.data, called.io, called.status, called.part⟩
  have disable : SameSpace { m with status := { Status.ofByte value with i := false } }
      (disableInterrupts env
        { m with status := { Status.ofByte value with i := m.status.i } }).2 :=
    (respects_notifyAll inert.disabled).related _
  have written (flag : Bool) (same : (Status.ofByte value).i = flag) :
      { Status.ofByte value with i := flag } = Status.ofByte value := by
    rw [← same]
  rw [setStatus, Action.apply_get_bind]
  generalize old : m.status.i = flag at enable disable
  cases new : (Status.ofByte value).i <;> cases flag
  · exact written _ new ▸ refl_of SameSpace _
  · exact written _ new ▸ disable
  · exact written _ new ▸ enable
  · exact written _ new ▸ refl_of SameSpace _

/-! ### Replaced bytes -/

theorem ioIndex?_place (address other : Nat) (value : UInt8) :
    (m.place address value).ioIndex? other = m.ioIndex? other := by
  rw [place]
  cases m.ioIndex? address with
  | none => rfl
  | some register =>
      dsimp only
      split
      · rfl
      · rw [ioIndex?, ioIndex?, size_setIoStored]
        rfl

theorem data_place_of_some {address register : Nat} (found : m.ioIndex? address = some register)
    (value : UInt8) : (m.place address value).data = m.data := by
  rw [place, found]
  dsimp only
  split <;> rfl

theorem world_place (address : Nat) (value : UInt8) :
    (m.place address value).world = m.world := by
  rw [place]
  split
  · split <;> rfl
  · rfl

theorem shown_of_some {address register : Nat} (found : m.ioIndex? address = some register) :
    shown env m address = m.shownIo register := by
  rw [shown, found]

theorem shown_of_none {address : Nat} (found : m.ioIndex? address = none) :
    shown env m address = (m.data.read env.toReporting address m.world).1 := by
  rw [shown, found]

namespace Flat

variable (flat : m.Flat)
include flat

theorem ioWatches?_eq_none (register : Nat) : m.ioWatches? register = none := by
  rw [ioWatches?]
  by_cases inside : register < m.part.ioSize
  · obtain ⟨kind, installed, -⟩ := flat.registers register inside
    rw [installed]
    rfl
  · rw [Array.getElem?_eq_none (by rw [flat.window]; omega)]
    rfl

/-- An IO register holds the flags, or else a byte of its own. -/
theorem kind_cases {register : Nat} (inside : register < m.part.ioSize) :
    register = m.part.statusRegister ∧ m.kindAt register = some .status ∨
      register ≠ m.part.statusRegister ∧ ∃ kind old, m.kindAt register = some kind ∧
        storesOnly kind = true ∧ kind.stored? = some old := by
  obtain ⟨kind, installed, placed⟩ := flat.registers register inside
  have found : m.kindAt register = some kind := by
    rw [kindAt, installed]
    rfl
  cases placed with
  | plain value other =>
      exact .inr ⟨fun place => other (place ▸ List.mem_cons_self), _, value, found, rfl, rfl⟩
  | status place => exact .inl ⟨place, found⟩
  | stackLow value place =>
      exact .inr ⟨fun same => flat.part.low_ne (place.symm.trans same), _, value, found, rfl, rfl⟩
  | stackHigh value place =>
      exact .inr ⟨fun same => flat.part.high_ne (place.symm.trans same), _, value, found, rfl, rfl⟩

theorem readIo_eq {register : Nat} (inside : register < m.part.ioSize) :
    readIo env register m = (m.shownIo register, m) := by
  rw [readIo_of_unwatched (flat.ioWatches?_eq_none register), shownIo]
  rcases flat.kind_cases inside with ⟨place, installed⟩ | ⟨other, kind, old, installed, stores, -⟩
  · rw [readUnwatched_of_status installed, if_pos place]
  · rw [readUnwatched_of_storesOnly installed stores, if_neg other]

/-- A read changes at most what is noted of it, and gives what is shown. -/
theorem readData_eq (address : UInt16) :
    (readData env address m).1 = shown env m address.toNat ∧
      ∃ world, (readData env address m).2 = { m with world } := by
  rw [readData_of_unwatched flat.unwatched, shown]
  rcases found : m.ioIndex? address.toNat with _ | register
  · exact ⟨rfl, _, rfl⟩
  · have inside : register < m.part.ioSize := flat.window ▸ (ioIndex?_eq_some_iff.mp found).2
    dsimp only
    rw [flat.readIo_eq inside]
    exact ⟨rfl, m.world, rfl⟩

/-- A write succeeds and replaces the byte, as far as the data space shows. -/
theorem run_writeData (inert : Inert env m) (address : UInt16) (value : UInt8) :
    ∃ next, (writeData env address value).run m = (.ok (), next) ∧
      SameSpace (m.place address.toNat value) next := by
  rw [run_writeData_of_unwatched flat.unwatched, place]
  rcases found : m.ioIndex? address.toNat with _ | register
  · exact ⟨_, rfl, sameSpace_writeMemory address.toNat value⟩
  · have inside : register < m.part.ioSize := flat.window ▸ (ioIndex?_eq_some_iff.mp found).2
    dsimp only
    rw [run_writeIo_of_unwatched (flat.ioWatches?_eq_none register)]
    rcases flat.kind_cases inside with
      ⟨status, installed⟩ | ⟨other, kind, old, installed, stores, -⟩
    · rw [run_writeUnwatched_of_status installed, if_pos status]
      exact ⟨_, rfl, inert.sameSpace_setStatus value⟩
    · rw [run_writeUnwatched_of_storesOnly installed stores, if_neg other]
      exact ⟨_, rfl, refl_of SameSpace _⟩

/-- Outside of the data space nothing is written. -/
theorem run_writeData_outside (env : Environment World) {address : UInt16}
    (outside : m.part.dataSize ≤ address.toNat) (value : UInt8) :
    ∃ world, (writeData env address value).run m = (.ok (), { m with world }) := by
  have beyond : 32 + m.io.size ≤ address.toNat := by
    rw [flat.window]
    exact Nat.le_trans (Nat.le_add_right _ _) outside
  rw [run_writeData_of_unwatched flat.unwatched, ioIndex?_eq_none_of_size_le beyond]
  obtain ⟨world, written⟩ :=
    writeMemory_outside env (show m.data.bytes.size ≤ address.toNat from flat.bytes ▸ outside) value
  exact ⟨world, congrArg (Prod.mk _) written⟩

/-! ### What is shown after a byte was replaced -/

theorem shownIo_place {address register other : Nat} {value : UInt8}
    (found : m.ioIndex? address = some register) :
    (m.place address value).shownIo other =
      if other = register then value else m.shownIo other := by
  have inside : register < m.part.ioSize := flat.window ▸ (ioIndex?_eq_some_iff.mp found).2
  rw [place, found]
  dsimp only
  rcases flat.kind_cases inside with ⟨status, -⟩ | ⟨ordinary, kind, old, installed, -, stores⟩
  · subst status
    rw [if_pos rfl, shownIo, shownIo]
    dsimp only
    split
    · exact Status.byte_ofByte value
    · rfl
  · rw [if_neg ordinary]
    by_cases same : other = register
    · subst same
      rw [if_pos rfl, shownIo_of_ne (m := m.setIoStored other value) ordinary,
        ioStored_setIoStored_self value installed stores]
    · rw [if_neg same, shownIo, shownIo, ioStored_setIoStored_of_ne value (Ne.symm same)]
      rfl

/-- The byte that was replaced is shown, and everything else as before. -/
theorem shown_place (address other : Nat) (value : UInt8) :
    shown env (m.place address value) other =
      if other = address ∧ address < m.part.dataSize then value else shown env m other := by
  have size : m.part.dataSize = 32 + m.part.ioSize + m.part.sramSize := rfl
  rcases found : m.ioIndex? address with _ | register
  · have replaced : m.place address value = m.setByteAt address value := by
      rw [place, found]
    rw [replaced, ← flat.bytes]
    rcases found' : m.ioIndex? other with _ | register'
    · rw [shown_of_none found', shown_of_none (m := m.setByteAt address value) found']
      exact read_setByteAt address other value
    · have apart : other ≠ address := fun same => by rw [same, found] at found'; cases found'
      rw [shown_of_some found', shown_of_some (m := m.setByteAt address value) found',
        if_neg fun holds => apart holds.1]
      rfl
  · have place := ioIndex?_eq_some_iff.mp found
    rw [flat.window] at place
    have found' := ioIndex?_place (m := m) address other value
    rcases shows : m.ioIndex? other with _ | register'
    · have apart : other ≠ address := fun same => by rw [same, found] at shows; cases shows
      rw [shown_of_none (found'.trans shows), shown_of_none shows, data_place_of_some found,
        world_place, if_neg fun holds => apart holds.1]
    · have place' := ioIndex?_eq_some_iff.mp shows
      have same : other = address ∧ address < m.part.dataSize ↔ register' = register := by omega
      rw [shown_of_some (found'.trans shows), shown_of_some shows, flat.shownIo_place found]
      simp only [same]

theorem setIoStored (register : Nat) (value : UInt8) : (m.setIoStored register value).Flat where
  part := flat.part
  unwatched := flat.unwatched
  bytes := flat.bytes
  window := (size_setIoStored m register value).trans flat.window
  registers other inside := by
    obtain ⟨kind, installed, placed⟩ := flat.registers other inside
    simp only [Machine.setIoStored, Array.getElem?_modify, installed]
    split
    · exact ⟨kind.store value, rfl, Placed.store placed value⟩
    · exact ⟨kind, rfl, placed⟩

theorem place (address : Nat) (value : UInt8) : (m.place address value).Flat := by
  rw [Machine.place]
  split
  · split
    · exact { flat with }
    · exact flat.setIoStored _ value
  · exact
      { flat with
        unwatched := flat.unwatched
        bytes := (Array.size_setIfInBounds ..).trans flat.bytes }

theorem of_sameSpace (same : SameSpace m next) : next.Flat where
  part := same.part ▸ flat.part
  unwatched := by
    rw [Unwatched, same.data]
    exact flat.unwatched
  bytes := by rw [same.data, same.part, flat.bytes]
  window := by rw [same.io, same.part, flat.window]
  registers := by
    rw [same.io, same.part]
    exact flat.registers

theorem setInterrupts (interrupts : Interrupt.Controller) :
    ({ m with interrupts } : Machine World).Flat :=
  flat.of_sameSpace ⟨rfl, rfl, rfl, rfl⟩

theorem setReporter (reporter : Option Handle) :
    ({ m with data := { m.data with reporter } } : Machine World).Flat :=
  { flat with unwatched := flat.unwatched }

theorem resetCore : m.resetCore.Flat := by
  refine Flat.setIoStored (Flat.setIoStored ?_ _ _) _ _
  exact
    { flat with
      unwatched := flat.unwatched
      bytes := by
        change (clearedData m.part m.settings.fill).size = m.part.dataSize
        rw [clearedData, List.size_toArray, List.length_append, List.length_replicate,
          Fill.length_bytes]
        rfl }

end Flat

/-- A new machine of a bare part without self-programming has such registers. -/
theorem flat_new {part : Part} (bare : part.Bare) {settings : Settings}
    (fixed : settings.reprogrammable = false) (world : World) :
    (new part settings world).Flat := by
  have narrow : min part.ioSize 256 = part.ioSize := Nat.min_eq_left bare.narrow
  refine Flat.resetCore
    { part := bare
      unwatched := fun _ => rfl
      bytes := Array.size_replicate
      window := ?_
      registers := fun register inside => ?_ }
  · simp [coreRegisters, fixed, narrow]
  · simp only [coreRegisters, fixed, narrow, Bool.false_eq_true, if_false,
      Array.getElem?_setIfInBounds, Array.size_setIfInBounds, Array.size_replicate]
    by_cases high : part.stackHigh = register
    · simp only [high, if_true, inside]
      exact ⟨_, rfl, .stackHigh 0 high.symm⟩
    by_cases low : part.stackLow = register
    · simp only [high, low, if_true, if_false, inside]
      exact ⟨_, rfl, .stackLow 0 low.symm⟩
    by_cases status : part.statusRegister = register
    · simp only [high, low, status, if_true, if_false, inside]
      exact ⟨_, rfl, .status status.symm⟩
    · simp only [high, low, status, if_false, Array.getElem?_replicate, inside, if_true]
      exact ⟨_, rfl, .plain 0 (by simp [Ne.symm high, Ne.symm low, Ne.symm status])⟩

/-- What is shown does not depend on anything else. -/
theorem Inert.shown_of_sameSpace (inert : Inert env m) (same : SameSpace m next)
    (address : Nat) : shown env next address = shown env m address := by
  obtain ⟨data, io, status, part⟩ := same
  have index : next.ioIndex? address = m.ioIndex? address := by
    rw [ioIndex?, ioIndex?, io, part]
  rw [shown, shown, index]
  split
  · rw [shownIo, shownIo, part, status, ioStored, ioStored, io]
  · rw [data, Segment.read, Segment.read]
    split
    · rfl
    · split
      · next receiver => exact inert.outside _ receiver ..
      · rfl

theorem Inert.place (inert : Inert env m) (address : Nat) (value : UInt8) :
    Inert env (m.place address value) := by
  rw [Machine.place]
  split
  · split <;> exact { inert with }
  · exact { inert with }

/-! ### Ways to one byte -/

/-- The data address of an IO register. -/
def ioAddress (register : Nat) : UInt16 :=
  UInt16.ofNat (32 + register)

/-- The same memory is reached as registers and through the stack, as IO registers, and through the
data space, by operations and by instructions. -/
structure OneMemory (env : Environment World) (m : Machine World) : Prop where
  reg : ∀ r : Reg, (readData env (UInt16.ofNat r.val) m).1 = m.reg r
  readIo : ∀ register < m.part.ioSize,
    readData env (ioAddress register) m = readIo env register m
  writeIo : ∀ register < m.part.ioSize, ∀ value,
    (writeData env (ioAddress register) value).run m = (writeIo env register value).run m
  status : (readData env (ioAddress m.part.statusRegister) m).1 = m.status.byte
  low : (readData env (ioAddress m.part.stackLow) m).1 = UInt8.ofNat m.stackPointer.toNat
  high : (readData env (ioAddress m.part.stackHigh) m).1 =
    UInt8.ofNat (m.stackPointer.toNat / 256)
  input : ∀ rd (a : UInt8) next, a.toNat < m.part.ioSize →
    ((perform env (.input rd a) next).run m).2 =
      ((perform env (.loadDirect rd (ioAddress a.toNat)) next).run m).2
  output : ∀ (a : UInt8) rr next, a.toNat < m.part.ioSize →
    ((perform env (.output a rr) next).run m).2 =
      ((perform env (.storeDirect (ioAddress a.toNat) rr) next).run m).2
  load : ∀ rd p mode next,
    ((perform env (.load rd p mode) next).run m).2 =
      ((perform env (.loadDirect rd (m.pointerAccess p mode).2) next).run
        (m.pointerAccess p mode).1).2
  store : ∀ p mode rr next,
    ((perform env (.store p mode rr) next).run m).2 =
      ((writeData env (m.pointerAccess p mode).2 (m.reg rr)).run (m.pointerAccess p mode).1).2
  push : ∀ r next,
    ((perform env (.unary .push r) next).run m).2 =
      ((perform env (.storeDirect m.stackPointer r) next).run m).2.setStackPointer
        (m.stackPointer - 1)
  pop : ∀ r next,
    ((perform env (.unary .pop r) next).run m).2 =
      ((perform env (.loadDirect r (m.stackPointer + 1)) next).run
        (m.setStackPointer (m.stackPointer + 1))).2

theorem perform_loadDirect_snd (rd : Reg) (k : UInt16) (next : Nat) :
    ((perform env (.loadDirect rd k) next).run m).2 =
      (readData env k m).2.setReg rd (readData env k m).1 := by
  rw [perform, Attempt.run_bind, Attempt.run_lift]
  rfl

theorem perform_load_snd (rd : Reg) (p : Pointer) (mode : PointerMode) (next : Nat) :
    ((perform env (.load rd p mode) next).run m).2 =
      ((perform env (.loadDirect rd (m.pointerAccess p mode).2) next).run
        (m.pointerAccess p mode).1).2 := by
  rw [perform, perform, Attempt.run_bind]
  rfl

theorem perform_pop_snd (r : Reg) (next : Nat) :
    ((perform env (.unary .pop r) next).run m).2 =
      ((perform env (.loadDirect r (m.stackPointer + 1)) next).run
        (m.setStackPointer (m.stackPointer + 1))).2 := by
  rw [perform_loadDirect_snd, ← pop_eq, perform, executeUnary, Attempt.run_bind, Attempt.run_lift]
  rfl

theorem toNat_ioAddress {register : Nat} (narrow : register < 256) :
    (ioAddress register).toNat = 32 + register := by
  rw [ioAddress, UInt16.toNat_ofNat_of_lt' (by change _ < 65536; omega)]

namespace Flat

variable (flat : m.Flat)
include flat

theorem ioIndex?_ioAddress {register : Nat} (inside : register < m.part.ioSize) :
    m.ioIndex? (ioAddress register).toNat = some register := by
  have narrow := flat.part.narrow
  rw [toNat_ioAddress (by omega), ioIndex?_eq_some_iff, flat.window]
  exact ⟨rfl, inside⟩

theorem readData_ioAddress (env : Environment World) {register : Nat}
    (inside : register < m.part.ioSize) :
    readData env (ioAddress register) m = Machine.readIo env register m := by
  rw [readData_of_unwatched flat.unwatched, flat.ioIndex?_ioAddress inside]

theorem run_writeData_ioAddress {register : Nat} (inside : register < m.part.ioSize)
    (value : UInt8) :
    (writeData env (ioAddress register) value).run m =
      (Machine.writeIo env register value).run m := by
  rw [run_writeData_of_unwatched flat.unwatched, flat.ioIndex?_ioAddress inside]

theorem readData_stored {register : Nat} (inside : register < m.part.ioSize)
    (other : register ≠ m.part.statusRegister) :
    (readData env (ioAddress register) m).1 = m.ioStored register := by
  rw [flat.readData_ioAddress env inside, flat.readIo_eq inside, shownIo_of_ne other]

theorem oneMemory (inert : Inert env m) : OneMemory env m where
  reg r := by
    have small : (UInt16.ofNat r.val).toNat = r.val :=
      UInt16.toNat_ofNat_of_lt' (by change _ < 65536; omega)
    have outside : m.ioIndex? r.val = none := by
      rcases found : m.ioIndex? r.val with _ | register
      · rfl
      · have place := ioIndex?_eq_some_iff.mp found
        omega
    have stored : r.val < m.data.bytes.size := by
      have size : m.part.dataSize = 32 + m.part.ioSize + m.part.sramSize := rfl
      rw [flat.bytes]
      omega
    rw [(flat.readData_eq _).1, small, shown_of_none outside, Segment.read,
      Array.getElem?_eq_getElem stored, reg, byteAt, Array.getD_eq_getD_getElem?,
      Array.getElem?_eq_getElem stored]
    rfl
  readIo register inside := flat.readData_ioAddress env inside
  writeIo register inside := flat.run_writeData_ioAddress inside
  status := by
    rw [flat.readData_ioAddress env flat.part.status, flat.readIo_eq flat.part.status]
    exact if_pos rfl
  low := by
    rw [flat.readData_stored flat.part.low flat.part.low_ne, stackPointer, low_wordOfBytes]
  high := by
    rw [flat.readData_stored flat.part.high flat.part.high_ne, stackPointer, high_wordOfBytes]
  input rd a next inside := by
    rw [perform_loadDirect_snd, flat.readData_ioAddress env inside, perform, Attempt.run_bind,
      Attempt.run_lift]
    rfl
  output a rr next inside := by
    obtain ⟨after, written, -⟩ := flat.run_writeData inert (ioAddress a.toNat) (m.reg rr)
    have written' := (flat.run_writeData_ioAddress inside (m.reg rr)).symm.trans written
    rw [perform, perform, Attempt.run_bind, Attempt.run_bind, Attempt.run_get]
    dsimp only
    rw [Attempt.run_bind, Attempt.run_bind, written, written']
    rfl
  load rd p mode next := perform_load_snd rd p mode next
  store p mode rr next := by
    change ((do writeData env (m.pointerAccess p mode).2 (m.reg rr); return ⟨next, 2⟩ :
      Attempt World Outcome).run (m.pointerAccess p mode).1).2 = _
    rw [Attempt.run_bind]
    rcases (writeData env (m.pointerAccess p mode).2 (m.reg rr)).run (m.pointerAccess p mode).1
      with ⟨fault | value, after⟩ <;> rfl
  push r next := by
    obtain ⟨after, written, -⟩ := flat.run_writeData inert m.stackPointer (m.reg r)
    have pushed : (push env (m.reg r)).run m =
        (.ok (), after.setStackPointer (m.stackPointer - 1)) := by
      rw [push, Attempt.run_bind, Attempt.run_get]
      dsimp only
      rw [Attempt.run_bind, written]
      rfl
    change ((do push env (m.reg r); return ⟨next, 2⟩ : Attempt World Outcome).run m).2 =
      ((do writeData env m.stackPointer (m.reg r); return ⟨next, 2⟩ :
        Attempt World Outcome).run m).2.setStackPointer (m.stackPointer - 1)
    rw [Attempt.run_bind, Attempt.run_bind, pushed, written]
    rfl
  pop r next := perform_pop_snd r next

end Flat

/-! ### The data space -/

/-- In a machine of a bare part without watches every write of the data space succeeds, and a read
gives what was written last at its address. What is written outside is dropped. Registers, IO
registers, flags and the stack pointer are places of the data space, on whichever way they are
reached. -/
theorem data_space_is_flat (flat : m.Flat) (inert : Inert env m) (address : UInt16)
    (value : UInt8) :
    (∃ next, (writeData env address value).run m = (.ok (), next) ∧ next.Flat ∧
      (∀ other, (readData env other next).1 =
        if other = address ∧ address.toNat < m.part.dataSize then value
        else (readData env other m).1) ∧
      (m.part.dataSize ≤ address.toNat → ∃ world, next = { m with world })) ∧
    OneMemory env m := by
  refine ⟨?_, flat.oneMemory inert⟩
  obtain ⟨next, written, same⟩ := flat.run_writeData inert address value
  have flat' : next.Flat := (flat.place address.toNat value).of_sameSpace same
  refine ⟨next, written, flat', fun other => ?_, fun outside => ?_⟩
  · rw [(flat'.readData_eq other).1, (flat.readData_eq other).1,
      (inert.place address.toNat value).shown_of_sameSpace same, flat.shown_place]
    simp only [UInt16.toNat_inj]
  · obtain ⟨world, outcome⟩ := flat.run_writeData_outside env outside value
    exact ⟨world, congrArg Prod.snd (written.symm.trans outcome)⟩

theorem flat_smallPart (world : World) : (new smallPart ⟨.known 0, false, false⟩ world).Flat :=
  flat_new ⟨by decide, by decide, by decide, by decide, by decide⟩ rfl world

/-- An environment in which probes that are told of `I` store to the data space themselves. -/
def meddling : Environment Unit :=
  { silence with
    notify := fun _ hook =>
      match hook with
      | .enabled _ => modify fun m => m.setByteAt 260 5
      | _ => return }

/-- A machine of a small part, with a probe of the global interrupt flag. -/
def probedFlag : Machine Unit :=
  let start := new smallPart ⟨.known 0, false, false⟩ ()
  { start with interrupts := start.interrupts.insertGlobalProbe ⟨0⟩ }

theorem flat_probedFlag : probedFlag.Flat :=
  (flat_smallPart ()).setInterrupts _

/-- To set `I` through the data space writes the address of the flags and no other. -/
theorem data_space_is_flat_status :
    probedFlag.Flat ∧ Inert silence probedFlag ∧
      ∃ next, (writeData silence 95 128).run probedFlag = (.ok (), next) ∧
        (readData silence 95 next).1 = 128 ∧ (readData silence 260 next).1 = 0 := by
  have inert : Inert silence probedFlag :=
    ⟨fun _ _ => .pure _, fun _ _ => .pure _, fun _ _ _ _ _ _ _ => rfl⟩
  obtain ⟨⟨next, written, -, reads, -⟩, -⟩ := data_space_is_flat flat_probedFlag inert 95 128
  refine ⟨flat_probedFlag, inert, next, written, ?_, ?_⟩
  · rw [reads]
    decide +kernel
  · rw [reads]
    decide +kernel

/-- An environment whose receiver of accesses outside keeps what is written there. -/
def hoarding : Environment UInt8 where
  note _ world := world
  readOutside _ _ _ _ kept := (kept, kept)
  writeOutside _ _ _ value _ := value
  notify _ _ := return
  readDevice _ := return 0
  writeDevice _ _ := return
  readDeviceBit _ _ := return false
  writeDeviceBit _ _ _ := return
  patience := 2

/-- A machine of a small part, with a receiver of accesses outside. -/
def reporting : Machine UInt8 :=
  let start := new smallPart ⟨.known 0, false, false⟩ 0
  { start with data := { start.data with reporter := some ⟨0⟩ } }

theorem flat_reporting : reporting.Flat :=
  (flat_smallPart 0).setReporter _

/-- A probe of the flag may store elsewhere meanwhile, which is then seen there; and a receiver of
accesses outside may answer with what was written outside. -/
theorem data_space_disturbed :
    (probedFlag.Flat ∧ (readData meddling 260 probedFlag).1 = 0 ∧
      (readData meddling 260 ((writeData meddling 95 128).run probedFlag).2).1 = 5) ∧
    reporting.Flat ∧ reporting.part.dataSize ≤ 2000 ∧ (readData hoarding 2000 reporting).1 = 0 ∧
      (readData hoarding 2000 ((writeData hoarding 2000 5).run reporting).2).1 = 5 :=
  ⟨⟨flat_probedFlag, by decide +kernel, by decide +kernel⟩, flat_reporting, by decide +kernel,
    by decide +kernel, by decide +kernel⟩

end Machine

end Avr

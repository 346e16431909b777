import Avr.Proofs.Machine.FastPath
import Avr.Proofs.SelfProgramming.Programming

/-!
Contract: what a programming leaves in flash.

Owns:
- flash after the write of a filled page, inside of the page and outside;
- the theorem that the page that was filled is written, and nothing else;
- a programming in silence, of a page that holds the second word of a jump.
-/

namespace Avr.Machine

open Avr.Isa Avr.Time

variable {World : Type} {env : Environment World} {initial m : Machine World}

/-! ### What is written -/

theorem Erased.sound (erased : Erased initial) :
    initial.flash.Sound initial.flash.size fun position =>
      initial.flash.segment.bytes.getD position 0 where
  contains position := by
    split
    · next inside =>
      change _ = some (initial.flash.segment.bytes.getD position 0)
      rw [Array.getD_eq_getD_getElem?, Array.getElem?_eq_getElem inside, Option.getD_some]
    · next outside => exact Array.getElem?_eq_none (Nat.not_lt.mp outside)
  agrees := erased.coherent
  slots := erased.slots

/-- Flash that contains the same bytes. -/
theorem bytes_eq_of_contains {f g : Flash} {size : Nat} {bytes : Nat → UInt8}
    (left : f.Contains size bytes) (right : g.Contains size bytes) :
    f.segment.bytes = g.segment.bytes :=
  Array.ext_getElem? fun position => (left position).trans (right position).symm

theorem getElem?_of_get {f : Flash} {address : Nat} {value : UInt8}
    (got : f.get address = .ok value) : f.segment.bytes[address]? = some value := by
  rw [Flash.get, Memory.Segment.get] at got
  split at got
  · next found => cases got; exact found
  · cases got

/-- A page inside of flash lies there as a whole. -/
theorem add_size_le_of_lt {page size flashSize : Nat} (inside : page < flashSize / size) :
    page * size + size ≤ flashSize := by
  rw [← Nat.succ_mul]
  exact Nat.mul_le_of_le_div _ _ _ (Nat.succ_le_of_lt inside)

section

variable {bytes : Nat → UInt8} {page : Nat} {fills : List Fill} {flash : Flash}

/-- Outside of its page a write leaves what was there. -/
theorem getElem?_of_written {before : Flash} (held : before.Contains initial.flash.size bytes)
    (contains : flash.Contains initial.flash.size (writtenBytes initial bytes page fills))
    {address : Nat} (outside : address < page * initial.part.pageSize ∨
      page * initial.part.pageSize + initial.part.pageSize ≤ address) :
    flash.segment.bytes[address]? = before.segment.bytes[address]? := by
  have same : writtenBytes initial bytes page fills address = bytes address := by
    simp only [writtenBytes, Flash.write]
    split
    · next covered =>
      have beyond : (filledPage initial.part.pageSize fills).length ≤
          address - page * initial.part.pageSize := by
        rw [length_filledPage]
        omega
      rw [List.getD_eq_getElem?_getD, List.getElem?_eq_none beyond, Option.getD_none]
    · rfl
  rw [contains, held, same]

/-- Inside of its page a write puts the page buffer. -/
theorem get_of_written
    (contains : flash.Contains initial.flash.size (writtenBytes initial bytes page fills))
    (inside : page < initial.flash.size / initial.part.pageSize) {offset : Nat} {value : UInt8}
    (filled : (filledPage initial.part.pageSize fills)[offset]? = some value) :
    flash.get (page * initial.part.pageSize + offset) = .ok value := by
  have fits := add_size_le_of_lt inside
  have within := (List.getElem?_eq_some_iff.mp filled).1
  rw [length_filledPage] at within
  rw [Flash.get, Memory.Segment.get, contains, if_pos (by omega)]
  simp only [writtenBytes, Flash.write]
  rw [length_filledPage, if_pos ⟨fits, Nat.le_add_right _ _⟩, Nat.add_sub_cancel_left,
    List.getD_eq_getElem?_getD, filled, Option.getD_some]

end

/-- A page of flash holds what was filled in, and the unit is ready for another one.

A word of the page that was not filled is erased. Words outside of the page are read anew all the
same, since the last one before it may be a jump to an address that the page holds. -/
structure PageWritten (initial : Machine World) (fills : List Fill) (page : Nat)
    (m : Machine World) : Prop where
  words : ∀ offset < initial.part.pageSize, offset % 2 = 0 →
    let last := lastFill? initial.part.pageSize offset fills
    m.flash.get (page * initial.part.pageSize + offset) =
        .ok ((last.map Fill.low).getD erasedByte) ∧
      m.flash.get (page * initial.part.pageSize + offset + 1) =
        .ok ((last.map Fill.high).getD erasedByte)
  outside : ∀ address, address < page * initial.part.pageSize ∨
      page * initial.part.pageSize + initial.part.pageSize ≤ address →
    m.flash.segment.bytes[address]? = initial.flash.segment.bytes[address]?
  disarmed : m.spmControl &&& operationMask = 0
  buffer : m.spm.map SelfProgramming.buffer = some (erasedPage initial.part.pageSize)
  reads : ∀ index < initial.flash.size / 2,
    m.flash.instr (2 * index) = .ok (m.flash.decodeAt index)

theorem Staged.pageWritten (erased : Erased initial) {cycle : Nat} {queued : Option (Entry Event)}
    {control : UInt8} {bytes : Nat → UInt8} {fills : List Fill} {page : Nat}
    (staged : Staged initial
      ⟨cycle, queued, ⟨control, erasedPage initial.part.pageSize⟩,
        writtenBytes initial bytes page fills⟩ m)
    (held : initial.flash.Contains initial.flash.size bytes)
    (inside : page < initial.flash.size / initial.part.pageSize)
    (clear : control &&& operationMask = 0) : PageWritten initial fills page m where
  words offset small even := by
    have whole : offset + 1 < initial.part.pageSize := by
      have evenSize := erased.even
      omega
    obtain ⟨isLow, isHigh⟩ := getElem?_filledPage whole even fills
    exact ⟨get_of_written staged.flash.contains inside isLow,
      get_of_written staged.flash.contains inside isHigh⟩
  outside _ := getElem?_of_written held staged.flash.contains
  disarmed := by
    rw [spmControl, staged.unit]
    exact clear
  buffer := by
    rw [staged.unit]
    rfl
  reads index below := by
    rw [staged.flash.instr_eq below, staged.flash.contains.decodeAt_eq]

/-- Self-programming writes the page that was filled.

While words are filled, flash stays as it is, and an operation can be armed if there is a vector to
tell that self-programming is ready. While an operation is armed, flash stays as it is, and the
operation can be executed until its timeout is handed out, which is at least as many cycles later as
arming lasts. After the execution of a page write flash stays as it is until its completion is
handed out, which is queued for as many cycles later as 4.5 milliseconds take. Then the page is
written. -/
theorem self_programming_writes_the_filled_page (distant : Distant env) (erased : Erased initial) :
    (∀ {fills m}, Programming env initial (.filling fills) m →
      m.flash.segment.bytes = initial.flash.segment.bytes ∧
        ∀ value, value &&& operationMask = 0x01 ∨ value &&& operationMask = 0x05 →
          (((writeIo env m.part.spmControl value).run m).1 = .ok () ↔
            initial.part.spmReady < initial.interrupts.table.size)) ∧
    (∀ {fills value since m}, Programming env initial (.armed fills value since) m →
      let outstanding := m.clock.queue.countMatching Event.ofUnit
      m.flash.segment.bytes = initial.flash.segment.bytes ∧
        (m.cycles < since + armedCycles → outstanding = 1) ∧
        (outstanding ≠ 0 → ((execute env (.control .spm)).run m).1 = .ok 1)) ∧
    ∀ {fills page since m}, Programming env initial (.writing fills page since) m →
      let finish := since + cyclesOfMillis initial.clock.hz pageMillis
      let outstanding := m.clock.queue.countMatching Event.ofUnit
      (m.cycles < finish → outstanding = 1) ∧
      (finish ≤ m.cycles → m.CaughtUp → outstanding = 0) ∧
      (outstanding ≠ 0 → m.flash.segment.bytes = initial.flash.segment.bytes) ∧
      (outstanding = 0 → PageWritten initial fills page m) := by
  have attains {progress : Progress} {m : Machine World}
      (programming : Programming env initial progress m) :=
    programming.attained distant erased erased.sound
  refine ⟨fun programming => ?_, fun {fills value since m} programming => ?_,
    fun {fills page since m} programming => ?_⟩
  · obtain ⟨_, staged, ⟨⟩⟩ := attains programming
    refine ⟨bytes_eq_of_contains staged.flash.contains erased.sound.contains,
      fun value operation => ?_⟩
    rcases operation with fill | write
    · exact (staged.writeIo distant erased.device rfl (ofControl?_fill fill)).1
    · exact (staged.writeIo distant erased.device rfl (ofControl?_write write)).1
  · obtain ⟨_, staged, attained⟩ := attains programming
    intro outstanding
    have counted : outstanding = _ := staged.outstanding
    cases attained with
    | armed cycle _ _ operation vector =>
        refine ⟨bytes_eq_of_contains staged.flash.contains erased.sound.contains,
          fun _ => counted, fun _ => ?_⟩
        rcases operation with fill | write
        · exact (staged.fills distant vector (ofControl?_fill fill) (only_timeout _)).1
        · exact (staged.writes env (ofControl?_write write) (only_timeout _)).1
    | expired _ _ late =>
        exact ⟨bytes_eq_of_contains staged.flash.contains erased.sound.contains,
          fun early => absurd early (Nat.not_lt.mpr (late.trans_eq staged.cycle.symm)),
          fun some => absurd counted some⟩
  · obtain ⟨_, staged, attained⟩ := attains programming
    intro finish outstanding
    have counted : outstanding = _ := staged.outstanding
    cases attained with
    | pending cycle _ control _ inside =>
        refine ⟨fun _ => counted, fun due caughtUp => ?_,
          fun _ => bytes_eq_of_contains staged.flash.contains erased.sound.contains,
          fun none => absurd (none.symm.trans counted) Nat.zero_ne_one⟩
        have ahead : ∀ entry ∈ m.clock.queue.selected Event.ofUnit, m.cycles < entry.time :=
          caughtUp.ahead
        rw [staged.queued] at ahead
        exact absurd (ahead _ List.mem_cons_self) (Nat.not_lt.mpr due)
    | written _ inside due clear =>
        have late : finish ≤ m.cycles := due.trans_eq staged.cycle.symm
        exact ⟨fun early => absurd early (Nat.not_lt.mpr late), fun _ _ => counted,
          fun some => absurd counted some,
          fun _ => staged.pageWritten erased erased.sound.contains inside clear⟩

/-! ### A page that holds the second word of a jump -/

/-- A part with pages of four bytes. -/
def pagedPart : Part :=
  { Part.atmega128 with sramSize := 8, flashSize := 16, pageSize := 4 }

/-- A jump was fetched whose second word is the first one of the second page. -/
def pagedMachine : Machine Unit :=
  { new pagedPart ⟨.known 0, true, false⟩ () with
    flash := Flash.after 16 [.load 2 [0x0C, 0x94], .fetch 2] }

theorem erased_pagedMachine : pagedMachine.Erased where
  device := by decide +kernel
  buffer := by decide +kernel
  outstanding := by decide +kernel
  even := by decide +kernel
  divides := by decide +kernel
  tidy := trivial
  coherent := (Flash.sound_after 16 _).agrees
  slots := (Flash.sound_after 16 _).slots

theorem distant_silence : Distant silence where
  callback _ _ := .pure _

/-- Registers are loaded for a fill. -/
def loadFill (m : Machine Unit) (address : UInt16) (low high : UInt8) : Machine Unit :=
  ((m.setPointer .z address).setReg 0 low).setReg 1 high

theorem forward_loadFill (m : Machine Unit) (address : UInt16) (low high : UInt8) :
    Forward m (m.loadFill address low high) := by
  have pointer : Elsewhere m (m.setPointer .z address) := elsewhere_setPointer m .z address
  have bytes : Elsewhere (m.setPointer .z address) (m.loadFill address low high) :=
    trans_of Elsewhere (elsewhere_setReg _ 0 low) (elsewhere_setReg _ 1 high)
  exact (trans_of Elsewhere pointer bytes).forward

/-- A value is written to the control register, in silence. -/
def silentArm (value : UInt8) (m : Machine Unit) : Machine Unit :=
  ((writeIo silence m.part.spmControl value).run m).2

/-- The store instruction is executed, in silence. -/
def silentStore (m : Machine Unit) : Machine Unit :=
  ((execute silence (.control .spm)).run m).2

/-- The clock is what it was, with all that is queued. -/
def SameClock (m next : Machine Unit) : Prop :=
  next.clock = m.clock

instance : IsPreorder (Machine Unit) SameClock where
  refl _ := rfl
  trans _ _ _ first rest := rest.trans first

/-- In silence nothing that completes a page puts anything on the clock. -/
theorem sameClock_completePage (start size : Nat) (contents : Option (List UInt8)) :
    Action.Respects SameClock (completePage silence start size contents) := by
  have notes (notice : Notice) : Action.Respects SameClock (note silence notice) :=
    .modify fun _ => rfl
  have changes (change : Interrupt.Table → Nat → Except Fault Interrupt.Table)
      (hook : Nat → Hook) (vector : Nat) :
      Attempt.Respects SameClock (changeVector silence change hook vector) := by
    refine .bind (.attempt fun m next changed => ?_) fun _ =>
      .lift (.bind .get fun _ => .forM (fun _ => .pure _) _)
    rcases tables : change m.interrupts.table vector with fault | table <;>
      rw [tables] at changed <;> cases changed
    rfl
  have settles : Action.Respects SameClock (settleOperation silence) := by
    refine ⟨fun m => ?_⟩
    rw [settleOperation_eq]
    rcases isUnit : m.spm with _ | unit
    · exact refl_of SameClock m
    · have posts : Attempt.Respects SameClock
          (setPosted silence m.part.spmReady (reportsReady (disarmed unit).control)) := by
        rw [setPosted]
        split <;> exact changes _ _ _
      have cleared := posts.run.related (m.modifySpm disarmed)
      rw [run_clearOperation isUnit, if_pos Option.isSome_some]
      generalize (setPosted silence _ _).run (m.modifySpm disarmed) = result at cleared ⊢
      obtain ⟨fault | _, after⟩ := result <;> exact cleared
  refine .bind .get fun m => ?_
  split
  · exact .bind (.modify fun _ => rfl) fun _ => .bind (notes _) fun _ => settles
  · exact .bind (notes _) fun _ => settles

/-- An advance up to the only event that is queued, the completion of a page. -/
theorem queue_advance_silence {m : Machine Unit} {delta start size count : Nat}
    {contents : Option (List UInt8)}
    (alone : m.clock.queue =
      ⟨[⟨delta, [.pageOperation start size contents]⟩], count, 0⟩) :
    (advance silence delta m).2.clock.queue = ⟨[], count + delta, 0⟩ := by
  have popped : (m.setQueue (m.clock.queue.advance delta)).clock.queue.popDue =
      (some [.pageOperation start size contents], ⟨[], count + delta, 0⟩) := by
    change (m.clock.queue.advance delta).popDue = _
    rw [alone, DeltaQueue.advance, Nat.zero_add, DeltaQueue.popDue]
    simp only [Nat.le_refl, if_true, Nat.sub_self]
  change (deliver silence 2 (m.setQueue (m.clock.queue.advance delta))).2.clock.queue = _
  rw [deliver_succ, popped]
  dsimp only
  generalize fires : (m.setQueue (m.clock.queue.advance delta)).setQueue _ = batch
  have same : (completePage silence start size contents batch).2.clock = batch.clock :=
    (sameClock_completePage start size contents).related batch
  have after : ([Event.pageOperation start size contents].forM (fire silence) batch).2 =
      (completePage silence start size contents batch).2 := rfl
  rw [deliver_succ, after, same, ← fires]
  rfl

/-- Registers are loaded, a fill is armed and executed. -/
theorem Programming.filled {fills : List Fill} {m : Machine Unit}
    (before : Programming silence pagedMachine (.filling fills) m) (fill : Fill) {value : UInt8}
    (operation : value &&& operationMask = 0x01) {address : UInt16} {low high : UInt8}
    (accepted : ((writeIo silence m.part.spmControl value).run (loadFill m address low high)).1 =
      .ok ())
    (waiting : (silentArm value (loadFill m address low high)).clock.queue.countMatching
      Event.ofUnit ≠ 0)
    (current : (silentArm value (loadFill m address low high)).currentFill = fill) :
    Programming silence pagedMachine (.filling (fills ++ [fill]))
      (silentStore (silentArm value (loadFill m address low high))) := by
  subst current
  exact .fill (.arm value (.aside before (forward_loadFill m address low high)) (.inl operation)
    accepted) waiting operation

/-- A page write is executed, and nothing else is queued. -/
theorem queue_silentStore {m : Machine Unit} {unit : SelfProgramming} (isUnit : m.spm = some unit)
    (armed : StoreOperation.ofControl? unit.control = some .write)
    (alone : m.clock.queue.removeMatching (fun queued => queued = .spmReset) =
      ⟨[], m.cycles, 0⟩) :
    (silentStore m).clock.queue =
      ⟨[⟨cyclesOfMillis m.clock.hz pageMillis,
        [.pageOperation (m.extendedZ / m.part.pageSize * m.part.pageSize) m.part.pageSize
          (some unit.buffer)]⟩], m.cycles, 0⟩ := by
  rw [silentStore, run_execute_spm isUnit, run_performStore_write armed, unschedule_silence, alone]
  have kept : (m.setQueue ⟨[], m.cycles, 0⟩).spm = some unit := isUnit
  rw [kept]
  rfl

theorem Programming.wrote {fills : List Fill} {m : Machine Unit}
    (before : Programming silence pagedMachine (.filling fills) m) {value : UInt8}
    (operation : value &&& operationMask = 0x05)
    (accepted : ((writeIo silence m.part.spmControl value).run m).1 = .ok ())
    (waiting : (silentArm value m).clock.queue.countMatching Event.ofUnit ≠ 0) {page since : Nat}
    (inside : (silentArm value m).extendedZ < pagedMachine.flash.size)
    (isPage : (silentArm value m).extendedZ / (silentArm value m).part.pageSize = page)
    (now : (silentArm value m).cycles = since) :
    Programming silence pagedMachine (.writing fills page since)
      (silentStore (silentArm value m)) := by
  subst isPage now
  exact .write (.arm value before (.inr operation) accepted) waiting operation inside

/-- Of two fills the first one falls into the same word of another page and does not count. The
jump before the page was fetched with an erased second word, and is read with the new one. -/
theorem self_programming_writes_the_filled_page_under_a_jump :
    let first := silentStore (silentArm 0x01 (loadFill pagedMachine 13 0x77 0x77))
    let second := silentStore (silentArm 0x81 (loadFill (advance silence 1 first).2 4 0x10 0x00))
    let written := silentStore (silentArm 0x05 second)
    let last := (advance silence (cyclesOfMillis 16000000 pageMillis) written).2
    pagedMachine.Erased ∧
      Programming silence pagedMachine (.writing [⟨13, 0x77, 0x77⟩, ⟨4, 0x10, 0x00⟩] 1 1) last ∧
      written.flash.segment.bytes = pagedMachine.flash.segment.bytes ∧
      written.flash.instr 2 = .ok (.absolute false 0xFFFF) ∧
      last.flash.get 4 = .ok 0x10 ∧ last.flash.get 6 = .ok 0xFF ∧
      last.flash.instr 2 = .ok (.absolute false 0x10) := by
  intro first second written
  have fillFirst : Programming silence pagedMachine (.filling [⟨13, 0x77, 0x77⟩]) first :=
    Programming.start.filled ⟨13, 0x77, 0x77⟩ (by decide) (by decide +kernel) (by decide +kernel)
      (by decide +kernel)
  have waited := Programming.pass 1 fillFirst
  have fillSecond : Programming silence pagedMachine
      (.filling [⟨13, 0x77, 0x77⟩, ⟨4, 0x10, 0x00⟩]) second :=
    waited.filled ⟨4, 0x10, 0x00⟩ (by decide) (by decide +kernel) (by decide +kernel)
      (by decide +kernel)
  have writes : Programming silence pagedMachine
      (.writing [⟨13, 0x77, 0x77⟩, ⟨4, 0x10, 0x00⟩] 1 1) written :=
    fillSecond.wrote (by decide) (by decide +kernel) (by decide +kernel) (by decide +kernel)
      (by decide +kernel) (by decide +kernel)
  have alone := queue_silentStore (m := silentArm 0x05 second)
    (show _ = some ⟨0x05, [0x10, 0x00, 0xFF, 0xFF]⟩ by decide +kernel) (by decide)
    (by decide +kernel)
  have hz : (silentArm 0x05 second).clock.hz = 16000000 := by decide +kernel
  have now : (silentArm 0x05 second).cycles = 1 := by decide +kernel
  have isWritten : silentStore (silentArm 0x05 second) = written := rfl
  rw [hz, now, isWritten] at alone
  have jump : written.flash.instr 2 = .ok (.absolute false 0xFFFF) := by decide +kernel
  -- The delay comes from floating-point arithmetic, so the rest holds for whatever it is.
  clear_value written
  generalize isDelay : cyclesOfMillis 16000000 pageMillis = delay at alone ⊢
  intro last
  have delivered : last.clock.queue = ⟨[], 1 + delay, 0⟩ :=
    queue_advance_silence alone
  have caughtUp : last.CaughtUp := by
    rw [CaughtUp, delivered]
    rfl
  have programming : Programming silence pagedMachine
      (.writing [⟨13, 0x77, 0x77⟩, ⟨4, 0x10, 0x00⟩] 1 1) last :=
    writes.pass delay
  obtain ⟨-, -, writing⟩ :=
    self_programming_writes_the_filled_page distant_silence erased_pagedMachine
  obtain ⟨-, -, unchanged, -⟩ := writing writes
  obtain ⟨-, complete, -, holds⟩ := writing programming
  have pending : written.clock.queue.countMatching Event.ofUnit ≠ 0 := by
    rw [alone]
    exact Nat.one_ne_zero
  have hz : pagedMachine.clock.hz = 16000000 := by decide +kernel
  have size : pagedMachine.part.pageSize = 4 := by decide +kernel
  have late : 1 + cyclesOfMillis pagedMachine.clock.hz pageMillis ≤ last.cycles := by
    rw [hz, isDelay, Machine.cycles, Clock.count, delivered]
  obtain ⟨words, outside, -, -, reads⟩ := holds (complete late caughtUp)
  rw [size] at words outside
  have first := words 0 (by decide) rfl
  have rest := (words 2 (by decide) rfl).1
  refine ⟨erased_pagedMachine, programming, unchanged pending, jump, first.1, rest, ?_⟩
  have low : last.flash.segment.bytes[2]? = some 0x0C :=
    (outside 2 (.inl (by decide))).trans (by decide +kernel)
  have high : last.flash.segment.bytes[3]? = some 0x94 :=
    (outside 3 (.inl (by decide))).trans (by decide +kernel)
  have next := getElem?_of_get first.1
  have nextHigh := getElem?_of_get first.2
  refine (reads 1 (by decide +kernel)).trans ?_
  rw [Flash.decodeAt, Flash.word, Flash.word, low, high, next, nextHigh]
  decide

end Avr.Machine

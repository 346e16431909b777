import Avr.Proofs.SelfProgramming.Completion
import Avr.Proofs.SelfProgramming.PageBuffer

/-!
Contract: programs that fill the page buffer and write a page.

Owns:
- programmings: fills and a page write, each armed and executed before its timeout, with anything
  elsewhere and any passing of time in between;
- the machines that a programming begins on, new ones among them;
- the stages that a programming can have attained, by how far it has come.

A programming does not say where its instructions are fetched from, so that may also be the very
page that is written.
-/

namespace Avr.Machine

open Avr.Isa Avr.Time

variable {World : Type} {env : Environment World}

/-- How far a programming has come. -/
inductive Progress where
  | filling (fills : List Fill)
  /-- An operation is armed, since the given cycle. -/
  | armed (fills : List Fill) (value : UInt8) (since : Nat)
  /-- The write of a page has been executed, in the given cycle. -/
  | writing (fills : List Fill) (page since : Nat)

/-- The page buffer is erased, nothing of the unit is queued, and whole pages make up flash. -/
structure Erased (m : Machine World) : Prop where
  device : m.kindAt m.part.spmControl = some (.device .selfProgramming)
  buffer : m.spm.map SelfProgramming.buffer = some (erasedPage m.part.pageSize)
  outstanding : m.clock.queue.countMatching Event.ofUnit = 0
  even : m.part.pageSize % 2 = 0
  divides : m.part.pageSize ∣ m.flash.size
  tidy : DeltaQueue.Tidy m.clock.queue.links
  coherent : m.flash.Coherent
  slots : m.flash.slots.size = m.flash.size / 2

/-- A new machine that can program itself is ready for a programming. -/
theorem erased_new {part : Part} {settings : Settings} (world : World)
    (reprogrammable : settings.reprogrammable = true)
    (register : part.spmControl < min part.ioSize 256) (even : part.pageSize % 2 = 0)
    (divides : part.pageSize ∣ part.flashSize) : (new part settings world).Erased := by
  have stored {m : Machine World} {register : Nat}
      (device : m.kindAt register = some (.device .selfProgramming)) (low : Nat) (value : UInt8) :
      (m.setIoStored low value).kindAt register = some (.device .selfProgramming) := by
    rw [kindAt_setIoStored]
    split
    · rw [device]
      rfl
    · exact device
  have core : (coreRegisters part settings.reprogrammable)[part.spmControl]?.map
      Io.Register.kind = some (.device .selfProgramming) := by
    rw [coreRegisters, if_pos reprogrammable, Array.getElem?_setIfInBounds_self_of_lt]
    · rfl
    · simpa using register
  have sound := (Flash.sound_new part.flashSize).foldl [.rearm]
  have size : (new part settings world).flash.size = part.flashSize := Array.size_replicate
  exact
    { device := stored (stored core _ _) _ _
      buffer := by
        rw [new, reprogrammable]
        rfl
      outstanding := rfl
      even
      divides := size ▸ divides
      tidy := trivial
      coherent := sound.agrees
      slots := sound.slots.trans (congrArg (· / 2) size.symm) }

/-- Fills of the page buffer and the write of a page, from an erased buffer on. Each is armed
through the control register, and executed while its timeout is still queued. -/
inductive Programming (env : Environment World) (initial : Machine World) :
    Progress → Machine World → Prop
  | start : Programming env initial (.filling []) initial
  | aside {progress : Progress} {m next : Machine World}
      (before : Programming env initial progress m) (forward : Forward m next) :
      Programming env initial progress next
  | pass {progress : Progress} {m : Machine World} (cycles : Nat)
      (before : Programming env initial progress m) :
      Programming env initial progress (advance env cycles m).2
  | arm {fills : List Fill} {m : Machine World} (value : UInt8)
      (before : Programming env initial (.filling fills) m)
      (operation : value &&& operationMask = 0x01 ∨ value &&& operationMask = 0x05)
      (accepted : ((writeIo env m.part.spmControl value).run m).1 = .ok ()) :
      Programming env initial (.armed fills value m.cycles)
        ((writeIo env m.part.spmControl value).run m).2
  | fill {fills : List Fill} {value : UInt8} {since : Nat} {m : Machine World}
      (before : Programming env initial (.armed fills value since) m)
      (waiting : m.clock.queue.countMatching Event.ofUnit ≠ 0)
      (operation : value &&& operationMask = 0x01) :
      Programming env initial (.filling (fills ++ [m.currentFill]))
        ((execute env (.control .spm)).run m).2
  | write {fills : List Fill} {value : UInt8} {since : Nat} {m : Machine World}
      (before : Programming env initial (.armed fills value since) m)
      (waiting : m.clock.queue.countMatching Event.ofUnit ≠ 0)
      (operation : value &&& operationMask = 0x05) (inside : m.extendedZ < initial.flash.size) :
      Programming env initial (.writing fills (m.extendedZ / m.part.pageSize) m.cycles)
        ((execute env (.control .spm)).run m).2

/-- The cycle in which a page write that is executed in a given cycle is complete. -/
def completion (m : Machine World) (since : Nat) : Nat :=
  since + cyclesOfMillis m.clock.hz pageMillis

/-- The bytes of flash with a filled page written. -/
def writtenBytes (initial : Machine World) (bytes : Nat → UInt8) (page : Nat) (fills : List Fill) :
    Nat → UInt8 :=
  let size := initial.part.pageSize
  Flash.write initial.flash.size bytes (.load (page * size) (filledPage size fills))

/-- The stages that belong to the progress of a programming, beginning with the given bytes. -/
inductive Attained (initial : Machine World) (bytes : Nat → UInt8) : Progress → Stage → Prop
  | filling (cycle : Nat) (control : UInt8) (fills : List Fill) :
      Attained initial bytes (.filling fills)
        ⟨cycle, none, ⟨control, filledPage initial.part.pageSize fills⟩, bytes⟩
  | armed (cycle : Nat) {since time : Nat} {value : UInt8} (fills : List Fill)
      (late : since + armedCycles ≤ time)
      (operation : value &&& operationMask = 0x01 ∨ value &&& operationMask = 0x05)
      (vector : initial.part.spmReady < initial.interrupts.table.size) :
      Attained initial bytes (.armed fills value since)
        ⟨cycle, some ⟨time, .spmReset⟩, ⟨value, filledPage initial.part.pageSize fills⟩, bytes⟩
  | expired {cycle since : Nat} {value : UInt8} (control : UInt8) (fills : List Fill)
      (late : since + armedCycles ≤ cycle) :
      Attained initial bytes (.armed fills value since)
        ⟨cycle, none, ⟨control, filledPage initial.part.pageSize fills⟩, bytes⟩
  | pending (cycle since : Nat) (control : UInt8) (fills : List Fill) {page : Nat}
      (inside : page < initial.flash.size / initial.part.pageSize) :
      Attained initial bytes (.writing fills page since)
        ⟨cycle, some ⟨initial.completion since, .pageOperation (page * initial.part.pageSize)
          initial.part.pageSize (some (filledPage initial.part.pageSize fills))⟩,
          ⟨control, erasedPage initial.part.pageSize⟩, bytes⟩
  | written {cycle since : Nat} {control : UInt8} (fills : List Fill) {page : Nat}
      (inside : page < initial.flash.size / initial.part.pageSize)
      (due : initial.completion since ≤ cycle) (clear : control &&& operationMask = 0) :
      Attained initial bytes (.writing fills page since)
        ⟨cycle, none, ⟨control, erasedPage initial.part.pageSize⟩,
          writtenBytes initial bytes page fills⟩

theorem ofControl?_fill {value : UInt8} (operation : value &&& operationMask = 0x01) :
    StoreOperation.ofControl? value = some .fill := by
  rw [StoreOperation.ofControl?, operation]
  rfl

theorem ofControl?_write {value : UInt8} (operation : value &&& operationMask = 0x05) :
    StoreOperation.ofControl? value = some .write := by
  rw [StoreOperation.ofControl?, operation]
  rfl

theorem only_timeout (time : Nat) :
    ∀ entry ∈ some (Entry.mk time Event.spmReset), entry.event = .spmReset :=
  fun _ member => Option.some.inj member ▸ rfl

variable {initial m : Machine World} {progress : Progress}

/-- Time does not undo the progress. -/
theorem Attained.later {bytes : Nat → UInt8} {stage later : Stage}
    (attained : Attained initial bytes progress stage)
    (isLater : stage.Later initial.flash.size later) : Attained initial bytes progress later := by
  cases attained with
  | filling cycle control fills =>
      obtain ⟨now, -, rfl⟩ := isLater.of_none
      exact .filling now control fills
  | armed cycle fills late operation vector =>
      cases isLater with
      | waits => exact .armed _ fills late operation vector
      | fires queued due => cases queued; exact .expired _ fills (late.trans due)
  | expired control fills late =>
      obtain ⟨now, passed, rfl⟩ := isLater.of_none
      exact .expired control fills (late.trans passed)
  | pending cycle since control fills inside =>
      cases isLater with
      | waits => exact .pending _ since control fills inside
      | fires queued due => cases queued; exact .written fills inside due (cleared_and_mask _)
  | written fills inside due clear =>
      obtain ⟨now, passed, rfl⟩ := isLater.of_none
      exact .written fills inside (due.trans passed) clear

theorem Staged.outstanding {origin : Machine World} {stage : Stage}
    (staged : Staged origin stage m) :
    m.clock.queue.countMatching Event.ofUnit = stage.queued.toList.length := by
  rw [DeltaQueue.countMatching_eq_length, staged.queued]

theorem Erased.staged (erased : Erased initial) {bytes : Nat → UInt8}
    (sound : initial.flash.Sound initial.flash.size bytes) :
    ∃ stage, Staged initial stage initial ∧ Attained initial bytes (.filling []) stage := by
  obtain ⟨unit, isUnit, buffer⟩ := Option.map_eq_some_iff.mp erased.buffer
  have nothing := erased.outstanding
  rw [DeltaQueue.countMatching_eq_length, List.length_eq_zero_iff] at nothing
  exact ⟨⟨initial.cycles, none, ⟨unit.control, erasedPage initial.part.pageSize⟩, bytes⟩,
    { toFramed := refl_of Framed initial
      tidy := erased.tidy
      cycle := rfl
      queued := nothing
      once := nofun
      unit := buffer ▸ isUnit
      flash := sound },
    .filling initial.cycles unit.control []⟩

theorem Programming.attained (distant : Distant env) (erased : Erased initial) {bytes : Nat → UInt8}
    (sound : initial.flash.Sound initial.flash.size bytes)
    (programming : Programming env initial progress m) :
    ∃ stage, Staged initial stage m ∧ Attained initial bytes progress stage := by
  have onwards {progress : Progress} {m next : Machine World} (forward : Forward m next) :
      (∃ stage, Staged initial stage m ∧ Attained initial bytes progress stage) →
        ∃ stage, Staged initial stage next ∧ Attained initial bytes progress stage
    | ⟨_, staged, attained⟩ =>
      have ⟨later, isLater, after⟩ := forward.later staged
      ⟨later, after, attained.later isLater⟩
  induction programming with
  | start => exact erased.staged sound
  | aside _ forward inductionHypothesis => exact onwards forward inductionHypothesis
  | pass cycles _ inductionHypothesis =>
      exact onwards ((distant.forward_advance cycles).related _) inductionHypothesis
  | @arm fills m value _ operation accepted inductionHypothesis =>
      obtain ⟨_, staged, ⟨cycle, control⟩⟩ := inductionHypothesis
      obtain ⟨armed, isArmed⟩ : ∃ armed, StoreOperation.ofControl? value = some armed :=
        operation.elim (fun fill => ⟨_, ofControl?_fill fill⟩)
          fun write => ⟨_, ofControl?_write write⟩
      obtain ⟨accepts, now, later, passed, isLater, after⟩ :=
        staged.writeIo distant erased.device rfl isArmed
      refine ⟨later, after, Attained.later (.armed now fills ?_ operation (accepts.mp accepted))
        isLater⟩
      rw [staged.cycle]
      exact Nat.add_le_add_right passed armedCycles
  | @fill fills value since m _ waiting operation inductionHypothesis =>
      obtain ⟨_, staged, attained⟩ := inductionHypothesis
      rw [staged.outstanding] at waiting
      cases attained with
      | expired => exact absurd rfl waiting
      | armed cycle _ _ _ vector =>
      obtain ⟨-, now, control, after⟩ := staged.fills distant vector (ofControl?_fill operation)
        (only_timeout _)
      refine ⟨_, after, ?_⟩
      rw [← filledPage_append]
      exact .filling now control _
  | @write fills value since m _ waiting operation inside inductionHypothesis =>
      obtain ⟨_, staged, attained⟩ := inductionHypothesis
      rw [staged.outstanding] at waiting
      cases attained with
      | expired => exact absurd rfl waiting
      | armed cycle _ _ _ _ =>
      obtain ⟨-, after⟩ := staged.writes env (ofControl?_write operation)
        (only_timeout _)
      refine ⟨_, after, ?_⟩
      rw [staged.cycle, staged.part]
      exact .pending cycle cycle _ fills (Nat.div_lt_div_of_lt_of_dvd erased.divides inside)

end Avr.Machine

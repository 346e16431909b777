import Avr.Proofs.SelfProgramming.Elsewhere

/-!
Contract: the stages of self-programming, and what leads from one to a later one.

Owns:
- the stage of a machine: the cycle, the event of the unit that is queued, the unit, and the bytes;
- later stages: time has passed, and what was queued may have fired;
- callbacks that lead to later stages only, and with them every background operation that is none
  of the unit.

A callback may let time pass. It may not touch the unit or the bytes of flash on its own.
-/

namespace Avr.Machine

open Avr.Time Avr.Interrupt

variable {World : Type} {env : Environment World}

/-- Where self-programming stands. -/
structure Stage where
  cycle : Nat
  /-- The timeout or the completion that is queued; there are never two. -/
  queued : Option (Entry Event)
  unit : SelfProgramming
  /-- What flash holds. -/
  bytes : Nat → UInt8

/-- A machine at a stage of self-programming that began on an earlier one. -/
structure Staged (origin : Machine World) (stage : Stage) (m : Machine World) : Prop
    extends Framed origin m where
  tidy : DeltaQueue.Tidy m.clock.queue.links
  cycle : m.cycles = stage.cycle
  queued : m.clock.queue.selected Event.ofUnit = stage.queued.toList
  once : ∀ entry ∈ stage.queued, entry.event.once = true
  unit : m.spm = some stage.unit
  flash : m.flash.Sound origin.flash.size stage.bytes

/-- The unit with no operation armed. -/
def disarmed (unit : SelfProgramming) : SelfProgramming :=
  { unit with control := unit.control &&& ~~~operationMask }

/-- The bytes of flash of a size after an event of the unit. -/
def programmed (size : Nat) (bytes : Nat → UInt8) : Event → Nat → UInt8
  | .pageOperation start pageSize contents =>
    Flash.write size bytes (.load start (contents.getD (erasedPage pageSize)))
  | _ => bytes

/-- Time has passed, on flash of a size. What was queued fires at its time at the earliest. -/
inductive Stage.Later (size : Nat) (stage : Stage) : Stage → Prop
  | waits {now : Nat} (passed : stage.cycle ≤ now) : Later size stage { stage with cycle := now }
  | fires {now : Nat} {entry : Entry Event} (queued : stage.queued = some entry)
      (due : entry.time ≤ now) :
      Later size stage
        ⟨now, none, disarmed stage.unit, programmed size stage.bytes entry.event⟩

theorem Stage.Later.refl {size : Nat} (stage : Stage) : stage.Later size stage :=
  .waits (Nat.le_refl stage.cycle)

theorem Stage.Later.trans {size : Nat} {stage middle last : Stage}
    (first : stage.Later size middle) (rest : middle.Later size last) : stage.Later size last := by
  cases first with
  | waits passed =>
      cases rest with
      | waits further => exact .waits (passed.trans further)
      | fires queued due => exact .fires queued due
  | fires queued due =>
      cases rest with
      | waits further => exact .fires queued (due.trans further)
      | fires none => cases none

/-- Without anything queued nothing but time can pass. -/
theorem Stage.Later.of_none {size cycle : Nat} {unit : SelfProgramming} {bytes : Nat → UInt8}
    {last : Stage} (later : Stage.Later size ⟨cycle, none, unit, bytes⟩ last) :
    ∃ now, cycle ≤ now ∧ last = ⟨now, none, unit, bytes⟩ := by
  cases later with
  | waits passed => exact ⟨_, passed, rfl⟩
  | fires queued => cases queued

/-- A timeout changes neither the page buffer nor flash. -/
theorem Stage.Later.of_timeout {size : Nat} {stage last : Stage} (later : stage.Later size last)
    (only : ∀ entry ∈ stage.queued, entry.event = .spmReset) :
    last.bytes = stage.bytes ∧ last.unit.buffer = stage.unit.buffer ∧
      ∀ entry ∈ last.queued, entry.event = .spmReset := by
  cases later with
  | waits passed => exact ⟨rfl, rfl, only⟩
  | fires queued due =>
      refine ⟨?_, rfl, nofun⟩
      rw [only _ queued]
      rfl

/-- Whatever stage a machine is at, the next one is at a later stage. -/
structure Forward (m next : Machine World) : Prop where
  later : ∀ {origin stage}, Staged origin stage m →
    ∃ later, stage.Later origin.flash.size later ∧ Staged origin later next

instance : IsPreorder (Machine World) Forward where
  refl _ := ⟨fun staged => ⟨_, .refl _, staged⟩⟩
  trans _ _ _ first rest := ⟨fun staged =>
    have ⟨_, firstLater, middle⟩ := first.later staged
    have ⟨last, restLater, reached⟩ := rest.later middle
    ⟨last, firstLater.trans restLater, reached⟩⟩

theorem Staged.elsewhere {origin m next : Machine World} {stage : Stage}
    (staged : Staged origin stage m) (elsewhere : Elsewhere m next) :
    Staged origin stage next where
  toFramed := trans_of Framed staged.toFramed elsewhere.toFramed
  tidy := (elsewhere.queue staged.tidy).1
  cycle := elsewhere.count.trans staged.cycle
  queued := (elsewhere.queue staged.tidy).2.trans staged.queued
  once := staged.once
  unit := elsewhere.unit.trans staged.unit
  flash := elsewhere.flash staged.flash

theorem Elsewhere.forward {m next : Machine World} (elsewhere : Elsewhere m next) :
    Forward m next :=
  ⟨fun staged => ⟨_, .refl _, staged.elsewhere elsewhere⟩⟩

/-- Outside objects whose callbacks leave the self-programming unit alone. -/
structure Distant (env : Environment World) : Prop where
  callback : ∀ handle hook, Action.Respects Forward (env.notify handle hook)

namespace Distant

variable (distant : Distant env)
include distant

theorem forward_notifyAll (handles : HandleList) (hook : Hook) :
    Action.Respects Forward (notifyAll env handles hook) :=
  .forM (fun handle => distant.callback handle hook) handles

theorem forward_completeTransition (id : Nat) (source target : Int) :
    Action.Respects Forward (completeTransition env id source target) := by
  have edits {change : Machine World → Machine World}
      (edit : ∀ m, Elsewhere m (change m)) : Action.Respects Forward (modify change) :=
    .modify fun m => (edit m).forward
  refine .bind .get fun m => ?_
  split
  · exact .pure _
  · split
    · exact .bind (edits fun _ => .of_eq rfl rfl rfl rfl rfl rfl) fun _ =>
        .bind (distant.forward_notifyAll _ _) fun _ =>
          edits fun _ => .of_eq rfl rfl rfl rfl rfl rfl
    · exact .pure _

/-- An event of others. -/
theorem forward_fire {event : Event} (other : event.ofUnit = false) :
    Action.Respects Forward (fire env event) := by
  induction event with
  | outside handle => exact distant.callback handle .event
  | periodic handle event period inductionHypothesis =>
      exact .bind ((elsewhere_schedule env other period).mono fun _ _ => Elsewhere.forward) fun _ =>
        inductionHypothesis other
  | timeout handle => exact (elsewhere_timeout env).mono fun _ _ => Elsewhere.forward
  | arrival machine source target =>
      exact distant.forward_completeTransition machine source target
  | spmReset | pageOperation => cases other

end Distant

/-! ### The ready vector -/

/-- The change is made to vectors that have a slot, and refused to all others. -/
def Checks (change : Table → Nat → Except Fault Table) : Prop :=
  ∀ (t : Table) (vector : Nat),
    if vector < t.size then ∃ next, change t vector = .ok next ∧ next.size = t.size
    else ∃ fault, change t vector = .error fault

theorem check_bind (t next : Table) (vector : Nat) :
    (do t.check vector; return next : Except Fault Table) =
      if vector < t.size then .ok next else .error (.invalidInterrupt vector t.size) := by
  rw [Table.check]
  split <;> rfl

theorem checks_post : Checks Table.post := by
  intro t vector
  rw [Table.post, check_bind]
  split
  · exact ⟨_, rfl, rfl⟩
  · exact ⟨_, rfl⟩

theorem checks_unpost : Checks Table.unpost := by
  intro t vector
  rw [Table.unpost, check_bind]
  split
  · exact ⟨_, rfl, rfl⟩
  · exact ⟨_, rfl⟩

namespace Distant

variable (distant : Distant env)
include distant

theorem changeVector {change : Table → Nat → Except Fault Table} (checks : Checks change)
    (hook : Nat → Hook) (vector : Nat) (m : Machine World) :
    (((Machine.changeVector env change hook vector).run m).1 = .ok () ↔
        vector < m.interrupts.table.size) ∧
      Forward m ((Machine.changeVector env change hook vector).run m).2 := by
  have checked := checks m.interrupts.table vector
  rw [Machine.changeVector, Attempt.run_bind, Attempt.run_attempt]
  split at checked
  · next inside =>
    obtain ⟨table, changed, size⟩ := checked
    simp only [changed]
    exact ⟨iff_of_true rfl inside, trans_of Forward (Elsewhere.of_table size).forward
      ((distant.forward_notifyAll _ _).related (m.setTable table))⟩
  · next outside =>
    obtain ⟨fault, refused⟩ := checked
    have isFault : ¬ (.error fault : Except Fault Unit) = .ok () := by
      intro isOk
      cases isOk
    simp only [refused]
    exact ⟨iff_of_false isFault outside, refl_of Forward m⟩

/-- Saying whether self-programming is ready succeeds if there is a vector for it. -/
theorem setPosted (vector : Nat) (posted : Bool) (m : Machine World) :
    (((Machine.setPosted env vector posted).run m).1 = .ok () ↔
        vector < m.interrupts.table.size) ∧
      Forward m ((Machine.setPosted env vector posted).run m).2 := by
  cases posted
  · exact distant.changeVector checks_unpost .unposted vector m
  · exact distant.changeVector checks_post .posted vector m

end Distant

end Avr.Machine

import Avr.Proofs.Interrupt.Installed
import Avr.Proofs.Machine.FastPath
import Avr.Proofs.SelfProgramming.Deed

/-!
Contract: the interrupt of the self-programming unit follows the control register.

Owns:
- machines on which the interrupt is posted exactly if the register reports the unit ready;
- writes of the register, which leave such machines, and the passing of time, which keeps them;
- whatever else happens, as long as nobody else posts the interrupt.

A flag pair that maps the interrupt would post it with its flag, so there is none.
-/

namespace Avr.Machine

open Avr.Interrupt Avr.Io

variable {World : Type} {env : Environment World} {part : Part} {m next : Machine World}

/-! ### Machines with the interrupt at its level -/

/-- No flag pair has anything to do with a vector. -/
structure Unpaired (vector : Nat) (m : Machine World) : Prop where
  registers : ∀ {register} (half : Half) {value pair},
    m.kindAt register = some (half.kind value pair) → FreePair (· ≠ vector) pair
  told : ∀ {other pair bit sticky},
    m.interrupts.notification? other = some (.flag pair bit sticky) → FreePair (· ≠ vector) pair

/-- A machine with a self-programming unit that alone has its interrupt. -/
structure Exclusive (part : Part) (m : Machine World) : Prop where
  made : m.part = part
  unit : m.spm.isSome = true
  table : m.interrupts.table.Sound
  inside : part.spmReady < m.interrupts.table.size
  unpaired : Unpaired part.spmReady m

/-- The interrupt is posted exactly if the register reports the unit ready. -/
structure Levelled (part : Part) (m : Machine World) : Prop extends Exclusive part m where
  level : m.interrupts.table.isPosted part.spmReady = reportsReady m.spmControl

theorem Unpaired.setIoStored {vector : Nat} (unpaired : Unpaired vector m) (register : Nat)
    (value : UInt8) : Unpaired vector (m.setIoStored register value) where
  registers {other} half {new pair} installed := by
    rcases exists_kindAt_of_setIoStored installed with same | ⟨kind, before, stores⟩
    · exact unpaired.registers half same
    · obtain ⟨old, rfl⟩ := (kind_of_store stores).2 half new pair rfl
      exact unpaired.registers half before
  told := unpaired.told

theorem Unpaired.of_eq {vector : Nat} (unpaired : Unpaired vector m) (io : next.io = m.io)
    (told : next.interrupts.notifications = m.interrupts.notifications) : Unpaired vector next where
  registers {register} half {value pair} installed := by
    rw [kindAt, io] at installed
    exact unpaired.registers half installed
  told {other pair bit sticky} found := by
    rw [Controller.notification?, told] at found
    exact unpaired.told found

theorem Exclusive.setTable (exclusive : Exclusive part m) {half : Half} {set : Bool} {vector : Nat}
    {table : Table} (changed : half.change set m.interrupts.table vector = .ok table) :
    Exclusive part (m.setTable table) where
  made := exclusive.made
  unit := exclusive.unit
  table := exclusive.table.change (half.isChange set changed)
  inside := Nat.lt_of_lt_of_eq exclusive.inside (half.size_of_change set changed).symm
  unpaired := exclusive.unpaired.of_eq rfl rfl

theorem Exclusive.modifySpm (exclusive : Exclusive part m)
    (change : SelfProgramming → SelfProgramming) : Exclusive part (m.modifySpm change) where
  made := exclusive.made
  unit := Option.isSome_map.trans exclusive.unit
  table := exclusive.table
  inside := exclusive.inside
  unpaired := exclusive.unpaired.of_eq rfl rfl

theorem freePairs_levelled (part : Part) :
    FreePairs (Itself (Levelled part : Machine World → Prop)) (· ≠ part.spmReady) where
  flags := fun ⟨same, levelled⟩ installed =>
    levelled.unpaired.registers .flags (same ▸ installed)
  mask := fun ⟨same, levelled⟩ installed =>
    levelled.unpaired.registers .mask (same ▸ installed)
  told := fun ⟨same, levelled⟩ told => levelled.unpaired.told (same ▸ told)

theorem Levelled.edit (levelled : Levelled part m) (made : next.part = m.part)
    (unit : next.spm.isSome = m.spm.isSome) (control : next.spmControl = m.spmControl)
    (interrupts : next.interrupts = m.interrupts) (io : next.io = m.io) : Levelled part next where
  made := made.trans levelled.made
  unit := unit.trans levelled.unit
  table := interrupts ▸ levelled.table
  inside := interrupts ▸ levelled.inside
  unpaired := levelled.unpaired.of_eq io (by rw [interrupts])
  level := by rw [interrupts, control]; exact levelled.level

theorem unitInvariant_levelled (part : Part) :
    UnitInvariant (Levelled part : Machine World → Prop) (· ≠ part.spmReady) where
  untouched _ _ same levelled :=
    levelled.edit same.part same.unit same.control same.interrupts same.io
  add _ _ _ levelled := levelled.edit rfl rfl rfl rfl rfl
  grant _ _ levelled := levelled.edit rfl rfl rfl rfl rfl
  posting m set vector table free changed levelled :=
    { levelled.toExclusive.setTable changed with
      level := by
        have drives := Half.drives_of_change levelled.table changed part.spmReady
        exact (drives.trans (if_neg free.symm)).trans levelled.level }
  enabling m set vector table changed levelled :=
    { levelled.toExclusive.setTable changed with
      level := (Half.drives_of_change_other changed (nofun : Half.flags ≠ .mask) _).trans
        levelled.level }
  stale m stale levelled :=
    { levelled with
      table := levelled.table.with_stale stale
      unpaired := levelled.unpaired.of_eq rfl rfl }
  store m register value levelled :=
    { levelled with unpaired := levelled.unpaired.setIoStored register value }

/-! ### Writes of the register -/

theorem setPosted_eq (env : Environment World) (vector : Nat) (posted : Bool) :
    setPosted env vector posted =
      changeVector env (Half.flags.change posted) (if posted then .posted else .unposted) vector := by
  cases posted <;> rfl

/-- The unit posts or unposts its interrupt as its register says. -/
theorem Exclusive.levelled_setPosted (upholds : env.Upholds (Levelled part))
    (exclusive : Exclusive part m) :
    Levelled part ((setPosted env part.spmReady (reportsReady m.spmControl)).run m).2 := by
  obtain ⟨table, changed⟩ := Half.flags.exists_change (reportsReady m.spmControl) exclusive.inside
  have levelled : Levelled part (m.setTable table) :=
    { exclusive.setTable changed with
      level := (Half.drives_of_change exclusive.table changed part.spmReady).trans (if_pos rfl) }
  have accord := (unitInvariant_levelled part).accord upholds
  have notified (hook : Nat → Hook) (instrument : (hook part.spmReady).isInstrument = true) :=
    (accord.mirrors_notifyVector part.spmReady instrument).keeps.related _ levelled
  rw [setPosted_eq, changeVector, Attempt.run_bind, Attempt.run_attempt, changed]
  change Levelled part (notifyVector env part.spmReady _ (m.setTable table)).2
  apply notified
  cases reportsReady m.spmControl <;> rfl

theorem itself_levelled_queue (queue : Time.DeltaQueue Time.Event)
    (both : Itself (Levelled part) m next) :
    Itself (Levelled part) (m.setQueue queue) (next.setQueue queue) :=
  ⟨both.1 ▸ rfl, both.2.edit rfl rfl rfl rfl rfl⟩

/-- Whatever is written to the register, the interrupt is posted as the new value says. -/
theorem keeps_writeSpmControl_levelled (upholds : env.Upholds (Levelled part)) (value : UInt8) :
    Attempt.Respects (Keeps (Levelled part)) (writeSpmControl env value) := by
  have invariant : UnitInvariant (Levelled part : Machine World → Prop) _ :=
    unitInvariant_levelled part
  have accord := invariant.accord upholds
  have stores : Attempt.Respects (Keeps (Levelled part))
      (do
        modify fun m => m.modifySpm fun unit => { unit with control := armedValue value }
        setPosted env (← get).part.spmReady (reportsReady (armedValue value)) :
          Attempt World Unit) := by
    refine ⟨⟨fun m levelled => ?_⟩⟩
    have written := levelled.toExclusive.modifySpm fun unit =>
      { unit with control := armedValue value }
    have control : (m.modifySpm fun unit => { unit with control := armedValue value }).spmControl =
        armedValue value := by
      obtain ⟨unit, isUnit⟩ := Option.isSome_iff_exists.mp levelled.unit
      rw [spmControl, Machine.modifySpm, isUnit]
      rfl
    have after := written.levelled_setPosted upholds
    rw [control, ← levelled.made] at after
    exact levelled.made ▸ after
  unfold writeSpmControl
  split
  · refine .bind (.lift (accord.mirrors_unschedule itself_levelled_queue _).keeps) fun _ => ?_
    exact .bind (.lift (accord.mirrors_schedule _ _).keeps) fun _ => stores
  · exact stores

theorem background_levelled (upholds : env.Upholds (Levelled part)) :
    Background env (Itself (Levelled part)) Eq (· ≠ part.spmReady) where
  toAccord := (unitInvariant_levelled part).accord upholds
  device handle hook _ := (upholds.notify handle hook).itself
  cancel :=
    ((unitInvariant_levelled part).accord upholds).mirrors_unschedule itself_levelled_queue _
  queue := itself_levelled_queue
  fill {_ _ m _} change _ _ := fun ⟨same, levelled⟩ =>
    ⟨same ▸ rfl, levelled.edit rfl Option.isSome_map (spmControl_fill m change) rfl rfl⟩
  control value same _ := (keeps_writeSpmControl_levelled upholds value).itself.agree _ _ same

theorem standing_levelled (part : Part) :
    Standing (Levelled part : Machine World → Prop) (· ≠ part.spmReady) where
  toUnitInvariant := unitInvariant_levelled part
  pairs := freePairs_levelled part
  control _ upholds := keeps_writeSpmControl_levelled upholds
  passing _ upholds cycles := ((background_levelled upholds).mirrors_advance cycles).keeps

/-! ### The main result -/

/-- What the unit and its interrupt depend on is as it was, and no flag pair came to map the
interrupt. -/
structure LeavesUnit (ready : Nat) (m next : Machine World) : Prop where
  part : next.part = m.part
  unit : next.spm.isSome = m.spm.isSome
  control : next.spmControl = m.spmControl
  table : m.interrupts.table.Sound → next.interrupts.table.Sound
  size : next.interrupts.table.size = m.interrupts.table.size
  posted : next.interrupts.table.isPosted ready = m.interrupts.table.isPosted ready
  unpaired : Unpaired ready m → Unpaired ready next

theorem Levelled.of_leavesUnit (levelled : Levelled part m)
    (leaves : LeavesUnit part.spmReady m next) : Levelled part next where
  made := leaves.part.trans levelled.made
  unit := leaves.unit.trans levelled.unit
  table := leaves.table levelled.table
  inside := Nat.lt_of_lt_of_eq levelled.inside leaves.size.symm
  unpaired := leaves.unpaired levelled.unpaired
  level := leaves.posted.trans (levelled.level.trans (congrArg reportsReady leaves.control.symm))

theorem keeps_step_levelled (upholds : env.Upholds (Levelled part)) :
    Action.Respects (Keeps (Levelled part)) (step env).run :=
  ⟨fun _ levelled => (standing_levelled part).keeps_step upholds levelled fun _ =>
    (background_levelled upholds).mirrors_storeProgram.keeps⟩

theorem levelled_new {settings : Settings} (reprogrammable : settings.reprogrammable = true)
    (world : World) (inside : part.spmReady < (new part settings world).interrupts.table.size) :
    Levelled part (new part settings world) := by
  have layout : Layout part [] :=
    { registers := nofun
      core := nofun
      vectors := fun wired _ => nomatch wired.1
      bits := fun wired => nomatch wired.1 }
  have fit : Fit [] (new part settings world) :=
    fit_new layout settings world (.inl fun _ _ wired => nomatch wired.1)
  have unit : (new part settings world).spm = some ⟨0, List.replicate part.pageSize erasedByte⟩ :=
    if_pos reprogrammable
  exact
    { made := rfl
      unit := by rw [unit]; rfl
      table := fit.table
      inside := inside
      unpaired :=
        { registers := fun _ _ _ installed => absurd installed (fit.clear _ _ _ _)
          told := fun found => absurd found (fit.silent _ _ _ _) }
      level := by
        have rests : reportsReady 0 = false := by decide
        rw [spmControl, unit]
        change (Table.new part.interruptCount).isPosted part.spmReady = reportsReady 0
        simp [rests, Table.isPosted, Table.holds, Table.new] }

/-- Whatever is done to a machine that can program itself, by its program and by everyone else, the
interrupt of its self-programming unit is posted exactly if the unit is enabled to request it and no
operation is armed, as long as only the unit posts or unposts it. -/
theorem ready_interrupt_follows_control {settings : Settings}
    (reprogrammable : settings.reprogrammable = true) (world : World)
    (inside : part.spmReady < (new part settings world).interrupts.table.size) {α : Type}
    {act : Action World α}
    (deed : Deed (LeavesUnit part.spmReady) (· ≠ part.spmReady) (fun _ => True) act) :
    let last := (act (new part settings world)).2
    last.interrupts.table.isPosted part.spmReady =
      (byteBit last.spmControl 7 && !byteBit last.spmControl 0) := by
  have keeps := deed.keeps (standing_levelled part)
    (fun _ _ leaves levelled => levelled.of_leavesUnit leaves)
    fun _ upholds _ => keeps_step_levelled upholds
  exact (keeps.related _ (levelled_new reprogrammable world inside)).level

/-! ### An armed operation that times out -/

theorem does_silence {Beside : Machine Unit → Machine Unit → Prop} {Free : Nat → Prop}
    {Steps : Environment Unit → Prop} : silence.Does Beside Free Steps where
  notify _ _ := .done _
  readDevice _ := .done _
  writeDevice _ _ := .done _
  readDeviceBit _ _ := .done _
  writeDeviceBit _ _ _ := .done _

/-- A part with little memory that still has the interrupt of its unit. -/
def readyPart : Part :=
  { Part.atmega128 with sramSize := 8, flashSize := 16, pageSize := 4 }

/-- Arm a fill, with the interrupt requested. -/
def armFill : Action Unit Unit := do
  let _ ← (writeIo silence readyPart.spmControl 0x81).run

theorem deed_armFill {Beside : Machine Unit → Machine Unit → Prop} {Free : Nat → Prop}
    {Steps : Environment Unit → Prop} : Deed Beside Free Steps armFill :=
  .andThen (.perform does_silence (.writeIo _ _)) fun _ => .done _

/-- The interrupt is posted when the operation has timed out, and not before. -/
theorem ready_interrupt_follows_control_timeout :
    let start := new readyPart ⟨.known 0, true, false⟩ ()
    let armed := (armFill start).2
    let last := ((do armFill; advance silence armedCycles) start).2
    armed.interrupts.table.isPosted readyPart.spmReady = false ∧
      last.interrupts.table.isPosted readyPart.spmReady = true := by
  intro start armed last
  have follows {act : Action Unit Unit} {last : Machine Unit}
      (deed : Deed (LeavesUnit readyPart.spmReady) (· ≠ readyPart.spmReady) (fun _ => True) act)
      (reached : (act start).2 = last) :
      last.interrupts.table.isPosted readyPart.spmReady =
        (byteBit last.spmControl 7 && !byteBit last.spmControl 0) := by
    subst reached
    exact @ready_interrupt_follows_control Unit readyPart ⟨.known 0, true, false⟩ rfl ()
      (by decide +kernel) Unit act deed
  have before := follows deed_armFill (rfl : _ = armed)
  have after := follows
    (.andThen deed_armFill fun _ => .perform does_silence (.advance armedCycles)) (rfl : _ = last)
  rw [before, after]
  exact ⟨by decide +kernel, by decide +kernel⟩

end Avr.Machine

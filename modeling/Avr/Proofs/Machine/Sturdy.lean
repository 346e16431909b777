import Avr.Proofs.Flash.Coherence
import Avr.Proofs.Interrupt.Installed
import Avr.Proofs.Machine.Invariant

/-!
Contract: machines on which no access of a program can fail.

Owns:
- what a machine has to be like for that: its registers, its interrupt table, its self-programming
  unit and its flash, and nothing that a program computes with;
- new machines, on which flag pairs may be installed;
- everything that a program does, which leaves such machines.

Watches are called between the look at an address and the access, so the number of IO registers must
not change in between.
-/

namespace Avr

open Avr.Interrupt Avr.Io Avr.Isa Avr.Memory

/-- Number of slots in the interrupt table of a part. -/
def Part.vectors (part : Part) : Nat :=
  (Table.new part.interruptCount).size

/-- A self-programming unit fits the part: pages consist of whole words, and its interrupt has a
slot. -/
structure Part.Programmable (part : Part) : Prop where
  even : part.pageSize % 2 = 0
  positive : 0 < part.pageSize
  ready : part.spmReady < part.vectors

/-- Writes of a register of this kind are never refused, if there are that many vectors and, as
given, a self-programming unit. -/
def Io.Kind.Served (vectors : Nat) (unit : Bool) : Kind → Prop
  | .flags _ pair | .mask _ pair => Machine.FreePair (· < vectors) pair
  | .device .selfProgramming => unit = true
  | .device (.outside _) => False
  | _ => True

namespace Machine

variable {World : Type} {env : Environment World} {part : Part} {m next : Machine World}

/-- The machine is of a part, refuses no writes of reserved registers, and has what its registers
reach. -/
structure Sturdy (part : Part) (m : Machine World) : Prop where
  same : m.part = part
  lenient : m.settings.strict = false
  wide : 64 ≤ part.ioSize
  window : m.io.size = min part.ioSize 256
  vectors : m.interrupts.table.size = part.vectors
  registers : EveryKind (Kind.Served part.vectors m.spm.isSome) m.io
  unit : ∀ unit, m.spm = some unit → part.Programmable ∧ unit.buffer.length = part.pageSize
  flash : m.flash.Coherent
  words : m.flash.slots.size = part.flashSize / 2

namespace Sturdy

theorem edit (sturdy : m.Sturdy part) (same : next.part = m.part)
    (settings : next.settings = m.settings) (io : next.io = m.io)
    (vectors : next.interrupts.table.size = m.interrupts.table.size) (spm : next.spm = m.spm)
    (flash : next.flash = m.flash) : next.Sturdy part where
  same := same.trans sturdy.same
  lenient := settings ▸ sturdy.lenient
  wide := sturdy.wide
  window := io ▸ sturdy.window
  vectors := vectors.trans sturdy.vectors
  registers := io ▸ spm ▸ sturdy.registers
  unit := spm ▸ sturdy.unit
  flash := flash ▸ sturdy.flash
  words := flash ▸ sturdy.words

/-- The program counter, the flags, the registers and memory may be anything. -/
theorem anywhere (sturdy : m.Sturdy part) (pc : Nat) (bytes : Array UInt8) (status : Status) :
    ({ m.compute bytes status with pc } : Machine World).Sturdy part :=
  sturdy.edit rfl rfl rfl rfl rfl rfl

theorem register_lt (sturdy : m.Sturdy part) {register : Nat} (field : register < 64) :
    register < min part.ioSize 256 := by
  have wide := sturdy.wide
  omega

/-- Stores change no kind of register into another. -/
theorem setIoStored (sturdy : m.Sturdy part) (register : Nat) (value : UInt8) :
    (m.setIoStored register value).Sturdy part :=
  { sturdy with
    window := Array.size_modify.trans sturdy.window
    registers := by
      intro other kind found
      rcases exists_kindAt_of_setIoStored found with before | ⟨old, before, rfl⟩
      · exact sturdy.registers other kind before
      · have served := sturdy.registers other old before
        cases old <;> exact served }

theorem setFlash (sturdy : m.Sturdy part) {flash : Flash} (coherent : flash.Coherent)
    (words : flash.slots.size = m.flash.slots.size) :
    ({ m with flash } : Machine World).Sturdy part :=
  { sturdy with
    flash := coherent
    words := words.trans sturdy.words }

/-- Writes of the control register and fills of the page buffer leave a page in the buffer. -/
theorem modifySpm (sturdy : m.Sturdy part) {change : SelfProgramming → SelfProgramming}
    (page : ∀ unit, unit.buffer.length = part.pageSize →
      (change unit).buffer.length = part.pageSize) : (m.modifySpm change).Sturdy part :=
  { sturdy with
    registers := by
      have same : (m.modifySpm change).spm.isSome = m.spm.isSome := Option.isSome_map
      rw [same]
      exact sturdy.registers
    unit := by
      intro unit found
      obtain ⟨old, before, rfl⟩ := Option.map_eq_some_iff.mp found
      obtain ⟨programmable, length⟩ := sturdy.unit old before
      exact ⟨programmable, page old length⟩ }

end Sturdy

/-- Vectors with a slot are never refused. -/
theorem VectorChange.size_eq {change : Table → Nat → Except Fault Table} {t next : Table}
    {vector : Nat} (operation : VectorChange change) (changed : change t vector = .ok next) :
    next.size = t.size := by
  cases operation with
  | post => exact Half.flags.size_of_change true changed
  | unpost => exact Half.flags.size_of_change false changed
  | enable => exact Half.mask.size_of_change true changed
  | disable => exact Half.mask.size_of_change false changed

/-! ### New machines -/

theorem served_coreRegisters (part : Part) (reprogrammable : Bool) :
    EveryKind (Kind.Served part.vectors reprogrammable) (coreRegisters part reprogrammable) := by
  have core : EveryKind (Kind.Served part.vectors reprogrammable) (coreRegisters part false) :=
    .set (.set (.set (.replicate trivial _) trivial _) trivial _) trivial _
  rw [coreRegisters]
  split
  · next able =>
      have served : Kind.Served part.vectors reprogrammable (.device .selfProgramming) := able
      exact core.set served part.spmControl
  · exact core

/-- A new machine is sturdy unless it refuses writes of reserved registers, if it has the registers
that instructions can name, and its unit, if any, fits its part. -/
theorem sturdy_new {part : Part} {settings : Settings} (world : World) (wide : 64 ≤ part.ioSize)
    (lenient : settings.strict = false)
    (programmable : settings.reprogrammable = true → part.Programmable) :
    (new part settings world).Sturdy part := by
  have sized : (coreRegisters part settings.reprogrammable).size = min part.ioSize 256 := by
    unfold coreRegisters
    dsimp only
    split <;> simp
  refine Sturdy.setIoStored (Sturdy.setIoStored ?_ _ _) _ _
  exact
    { same := rfl
      lenient := lenient
      wide := wide
      window := sized
      vectors := rfl
      registers := by
        have served := served_coreRegisters part settings.reprogrammable
        change EveryKind (Kind.Served part.vectors (Option.isSome (if _ then _ else _))) _
        split <;> simp_all
      unit := by
        intro unit found
        change (if settings.reprogrammable = true then _ else _) = some unit at found
        split at found
        · next able =>
          cases found
          exact ⟨programmable able, List.length_replicate⟩
        · cases found
      flash := Flash.agrees_apply (Flash.sound_new part.flashSize).agrees .rearm
      words := (Flash.size_slots_apply (Flash.new part.flashSize) .rearm).trans
        Array.size_replicate }

/-! ### Flag pairs -/

theorem ensures_registerNotification (vector : Nat) (notification : Notification) :
    Attempt.Ensures (Sturdy part : Machine World → Prop) (registerNotification vector notification)
      (fun m => m.Sturdy part ∧ vector < part.vectors) fun _ => Sturdy part where
  completed m value next sturdy ran := by
    rw [registerNotification, Attempt.run_attempt, Controller.register] at ran
    by_cases inside : vector < m.interrupts.table.size
    · simp only [Table.check, if_pos inside, bind, Except.bind, pure, Except.pure] at ran
      cases ran
      exact ⟨sturdy.edit rfl rfl rfl rfl rfl rfl, sturdy.vectors ▸ inside⟩
    · simp only [Table.check, if_neg inside, bind, Except.bind] at ran
      cases ran
  failed m fault next sturdy ran := by
    rw [registerNotification, Attempt.run_attempt] at ran
    split at ran <;> cases ran
    exact sturdy

theorem ensures_registerAll (pair : FlagPair) (entries : List (Nat × Nat)) :
    Attempt.Ensures (Sturdy part : Machine World → Prop)
      (entries.forM fun (bit, vector) =>
        registerNotification vector (.flag pair bit (pair.isSticky bit)))
      (fun m => m.Sturdy part ∧ ∀ entry ∈ entries, entry.2 < part.vectors)
      fun _ => Sturdy part := by
  induction entries with
  | nil => exact .pure fun m sturdy => ⟨sturdy, nofun⟩
  | cons entry rest inductionHypothesis =>
      refine .bind (ensures_registerNotification entry.2 _) fun _ => ?_
      constructor
      · intro m value next ⟨sturdy, inside⟩ ran
        obtain ⟨after, insides⟩ := inductionHypothesis.completed m value next sturdy ran
        exact ⟨after, List.forall_mem_cons.mpr ⟨inside, insides⟩⟩
      · intro m fault next ⟨sturdy, _⟩ ran
        exact inductionHypothesis.failed m fault next sturdy ran

theorem keeps_installRegister {register : Nat} {kind : Kind}
    (served : ∀ unit, kind.Served part.vectors unit) :
    Attempt.Respects (Keeps (Sturdy part))
      (installRegister register kind : Attempt World Unit) := by
  refine .attempt fun m next changed sturdy => ?_
  split at changed <;> cases changed
  exact
    { sturdy with
      window := Array.size_modify.trans sturdy.window
      registers := by
        intro other kind' found
        rw [Array.getElem?_modify] at found
        split at found
        · rw [Option.map_map] at found
          obtain ⟨old, -, rfl⟩ := Option.map_eq_some_iff.mp found
          rw [Function.comp_apply, Register.kind_withKind]
          exact served _
        · exact sturdy.registers other kind' found }

/-- A pair is installed only if all its vectors have slots. -/
theorem keeps_installPair (pair : FlagPair) :
    Attempt.Respects (Keeps (Sturdy part)) (installPair pair : Attempt World Unit) := by
  have installs : Attempt.Ensures
      (fun m : Machine World => m.Sturdy part ∧ ∀ entry ∈ pair.mapped, entry.2 < part.vectors)
      (do
        installRegister pair.flagRegister (.flags 0 pair)
        installRegister pair.maskRegister (.mask 0 pair) : Attempt World Unit)
      (Sturdy part) fun _ => Sturdy part := by
    refine .of_holds fun m ⟨sturdy, inside⟩ => ?_
    have free : FreePair (· < part.vectors) pair := fun bit vector mapped => inside _ mapped
    have keeps : Attempt.Respects (Keeps (Sturdy part))
        (do
          installRegister pair.flagRegister (.flags 0 pair)
          installRegister pair.maskRegister (.mask 0 pair) : Attempt World Unit) :=
      .bind (keeps_installRegister fun _ => free) fun _ => keeps_installRegister fun _ => free
    exact keeps.run.related m sturdy
  have whole : Attempt.Ensures (Sturdy part : Machine World → Prop) (installPair pair)
      (Sturdy part) fun _ => Sturdy part :=
    .bind (ensures_registerAll pair pair.mapped) fun _ => installs
  exact ⟨⟨fun m => whole.holds⟩⟩

/-! ### Programs -/

section Upholds

variable (upholds : env.Upholds (Sturdy part))
include upholds

theorem programInvariant_sturdy : ProgramInvariant env (Sturdy part) fun _ => True where
  note _ sturdy := sturdy.edit rfl rfl rfl rfl rfl rfl
  instrument handle hook _ := upholds.notify handle hook
  add _ _ sturdy := sturdy.edit rfl rfl rfl rfl rfl rfl
  timeout sturdy := sturdy.edit rfl rfl rfl rfl rfl rfl
  vector sturdy operation _ changed :=
    sturdy.edit rfl rfl rfl (operation.size_eq changed) rfl rfl
  load {m offset values flash} sturdy loads := by
    have words := Flash.size_slots_apply m.flash (.load offset values)
    rw [Flash.apply, loads] at words
    exact sturdy.setFlash (sturdy.flash.of_load loads) words
  settleIn _ _ sturdy := sturdy.edit rfl rfl rfl rfl rfl rfl
  addOwner _ sturdy := sturdy.edit rfl rfl rfl rfl rfl rfl
  dropOwner _ sturdy := sturdy.edit rfl rfl rfl rfl rfl rfl
  device handle hook _ := upholds.notify handle hook
  readDevice := upholds.readDevice
  writeDevice := upholds.writeDevice
  readDeviceBit := upholds.readDeviceBit
  writeDeviceBit := upholds.writeDeviceBit
  readOutside _ _ _ _ sturdy := sturdy.edit rfl rfl rfl rfl rfl rfl
  writeOutside _ _ _ _ sturdy := sturdy.edit rfl rfl rfl rfl rfl rfl
  compute _ _ sturdy _ := sturdy.edit rfl rfl rfl rfl rfl rfl
  allow sturdy := sturdy.edit rfl rfl rfl rfl rfl rfl
  forbid sturdy := sturdy.edit rfl rfl rfl rfl rfl rfl

theorem mirrors_unschedule_sturdy (event : Time.Event) :
    Action.Mirrors (Itself (Sturdy part)) (unschedule env event) (unschedule env event) :=
  (programInvariant_sturdy upholds).accord.mirrors_unschedule
    (fun _ ⟨same, sturdy⟩ => ⟨same ▸ rfl, sturdy.edit rfl rfl rfl rfl rfl rfl⟩) event

theorem mirrors_writeSpmControl_sturdy (value : UInt8) :
    Attempt.Mirrors (Itself (Sturdy part)) (writeSpmControl env value)
      (writeSpmControl env value) :=
  (programInvariant_sturdy upholds).accord.mirrors_writeSpmControl
    (mirrors_unschedule_sturdy upholds _)
    (fun _ ⟨same, sturdy⟩ => ⟨same ▸ rfl, sturdy.modifySpm fun _ => id⟩) (fun _ _ _ => trivial)
    value

theorem background_sturdy : Background env (Itself (Sturdy part)) Eq fun _ => True where
  toAccord := (programInvariant_sturdy upholds).accord
  device handle hook _ := (upholds.notify handle hook).itself
  cancel := mirrors_unschedule_sturdy upholds _
  fill {start _ _ _} change starts page := fun ⟨same, sturdy⟩ => by
    rw [starts.holds.same] at page
    exact ⟨same ▸ rfl, sturdy.modifySpm fun unit => page unit.buffer⟩
  control value same _ := (mirrors_writeSpmControl_sturdy upholds value).agree _ _ same
  queue _ := fun ⟨same, sturdy⟩ => ⟨same ▸ rfl, sturdy.edit rfl rfl rfl rfl rfl rfl⟩

theorem performing_sturdy : Performing env (Itself (Sturdy part)) Eq fun _ => True where
  toAccesses := (programInvariant_sturdy upholds).computing.accesses_of_freePairs
    (mirrors_writeSpmControl_sturdy upholds) (.of_free fun _ => trivial)
    fun _ _ ⟨same, sturdy⟩ => ⟨same ▸ rfl, sturdy.setIoStored _ _⟩
  breaking := fun ⟨same, sturdy⟩ => ⟨same ▸ rfl, sturdy.edit rfl rfl rfl rfl rfl rfl⟩

end Upholds

/-- Nothing of a machine changes but the world around it. -/
def OnlyWorld (m next : Machine World) : Prop :=
  ∃ world, next = { m with world }

instance : IsPreorder (Machine World) OnlyWorld where
  refl m := ⟨m.world, rfl⟩
  trans := by
    rintro _ _ _ ⟨_, rfl⟩ ⟨world, rfl⟩
    exact ⟨world, rfl⟩

/-- Calls that leave the machine alone keep it sturdy. -/
theorem upholds_sturdy (within : env.Within OnlyWorld) : env.Upholds (Sturdy part) :=
  within.mono fun _ _ ⟨_, same⟩ sturdy => same ▸ sturdy.edit rfl rfl rfl rfl rfl rfl

end Machine

end Avr

import Avr.Proofs.Interrupt.Masked
import Avr.Proofs.Machine.Dispatch

/-!
Contract: flag pairs stay in step with the interrupt table whatever a program does.

Owns:
- setting or clearing a flag, and forcing a vector, as writes of one half of a pair;
- machines on which vectors that were idle are posted only if they were raised since;
- accesses, dispatches and steps as computations that lead from such machines to such machines.

How often a vector was raised is counted in the world. The program itself never raises one: it can
only clear flags.
-/

namespace Avr

open Avr.Interrupt Avr.Io

/-- What is recorded in the world by the way takes no raising back. -/
structure Environment.Counts {World : Type} (env : Environment World)
    (raisings : World → Nat → Nat) : Prop where
  note : ∀ notice world vector, raisings world vector ≤ raisings (env.note notice world) vector
  readOutside : ∀ handle segment address blank world vector,
    raisings world vector ≤ raisings (env.readOutside handle segment address blank world).2 vector
  writeOutside : ∀ handle segment address value world vector,
    raisings world vector ≤ raisings (env.writeOutside handle segment address value world) vector

namespace Machine

variable {World : Type} {env : Environment World} {pairs : List FlagPair} {pair : FlagPair}
  {bit vector : Nat} {m next : Machine World}

/-! ### Flags -/

theorem ioStored_of_kindAt {register : Nat} (half : Half) {value : UInt8}
    (installed : m.kindAt register = some (half.kind value pair)) :
    m.ioStored register = value := by
  obtain ⟨entry, found, kind⟩ := Option.map_eq_some_iff.mp installed
  simp only [ioStored, found, Option.bind_some, Register.stored?, kind, Half.stored?_kind,
    Option.getD_some]

/-- The machine with one flag set or cleared, but with its table as it was. -/
def withFlag (m : Machine World) (pair : FlagPair) (bit : Nat) (set : Bool) : Machine World :=
  m.setIoStored pair.flagRegister (withBit (m.ioStored pair.flagRegister) bit set)

theorem run_setFlagBit {old : UInt8} (installed : m.kindAt pair.flagRegister = some (.flags old pair))
    (bit : Nat) (set : Bool) :
    (setFlagBit env pair bit set).run m =
      (Half.sync env .flags (withBit old bit set) (pair.changed old (withBit old bit set))).run
        (m.setIoStored pair.flagRegister (withBit old bit set)) := by
  have stored : m.io[pair.flagRegister]?.bind Register.stored? = some old := by
    obtain ⟨entry, found, kind⟩ := Option.map_eq_some_iff.mp installed
    rw [found, Option.bind_some, Register.stored?, kind]
    rfl
  rw [setFlagBit, Attempt.run_bind, Attempt.run_get]
  dsimp only
  rw [stored, ← syncPosted_eq]
  rfl

/-- To set or clear a flag succeeds, with its vectors in doubt beforehand or not. -/
theorem MaskedBut.exists_setFlagBit (env : Environment World) {doubt : Half → Nat → Prop}
    (masked : MaskedBut doubt pairs m)
    (member : pair ∈ pairs) (bit : Nat) (set : Bool)
    (settles : ∀ half vector, doubt half vector → half = .flags ∧ ∃ bit', (bit', vector) ∈
      pair.changed (m.ioStored pair.flagRegister)
        (withBit (m.ioStored pair.flagRegister) bit set)) :
    ∃ table, (setFlagBit env pair bit set).run m =
        (.ok (), (m.withFlag pair bit set).setTable table) ∧
      Masked pairs ((m.withFlag pair bit set).setTable table) := by
  obtain ⟨old, installed, -⟩ := masked.drives pair member .flags
  have stored : m.ioStored pair.flagRegister = old := ioStored_of_kindAt _ installed
  rw [withFlag, stored, run_setFlagBit installed]
  rw [stored] at settles
  exact masked.exists_write env member installed _ settles

theorem notifyForced_of_flag {sticky : Bool}
    (told : m.interrupts.notification? vector = some (.flag pair bit sticky))
    (sets : (setFlagBit env pair bit true).run m = (.ok (), next)) :
    notifyForced env vector m = ((), next) := by
  rw [notifyForced_eq, told]
  exact run_orReport sets _

/-- To force the vector of a flag is to set the flag. -/
theorem MaskedBut.exists_force (env : Environment World) (masked : Masked pairs m) (wired : Wired pairs pair bit vector) :
    ∃ table, (forceInterrupt env vector).run m =
        (.ok (), (m.withFlag pair bit true).setTable table) ∧
      Masked pairs ((m.withFlag pair bit true).setTable table) := by
  obtain ⟨old, installed, -⟩ := masked.drives pair wired.1 .flags
  have stored : m.ioStored pair.flagRegister = old := ioStored_of_kindAt _ installed
  obtain ⟨posted, changed⟩ := Half.flags.exists_change true (masked.inside wired)
  have posts : (postInterrupt env vector).run m = (.ok (), m.setTable posted) :=
    run_changeVector (masked.quiet vector) changed
  -- A vector whose flag is set already was posted before, so it is never in doubt.
  have doubtful : MaskedBut
      (fun half other => half = .flags ∧ other = vector ∧ byteBit old bit = false) pairs
      (m.setTable posted) := by
    refine masked.setTable_of_change changed (fun _ _ never => never.elim) ?_
    intro pair' bit' value wired' kind sure
    obtain ⟨rfl, rfl⟩ := masked.layout.vectors wired wired'
    obtain ⟨-, rfl, -⟩ := Half.kind_injective (Option.some.inj (kind.symm.trans installed))
    simpa using sure
  have settles (half : Half) (other : Nat)
      (unsure : half = .flags ∧ other = vector ∧ byteBit old bit = false) :
      half = .flags ∧ ∃ bit', (bit', other) ∈ pair.changed old (withBit old bit true) := by
    obtain ⟨flags, rfl, clear⟩ := unsure
    have below := masked.layout.bits wired
    refine ⟨flags, bit, FlagPair.mem_changed.mpr ⟨wired.2, ?_⟩⟩
    rw [byteBit_withBit old below below, if_pos rfl, clear]
    exact Bool.false_ne_true
  obtain ⟨table, sets, done⟩ :=
    doubtful.exists_setFlagBit env wired.1 bit true (stored ▸ settles)
  refine ⟨table, ?_, done⟩
  have forces : notifyForced env vector (m.setTable posted) =
      ((), (m.withFlag pair bit true).setTable table) :=
    notifyForced_of_flag (masked.heard wired) sets
  rw [forceInterrupt, Attempt.run_bind, posts]
  dsimp only
  rw [Attempt.run_lift, forces]

/-! ### Raisings since a certain time -/

/-- The pairs are in step with the table, and vectors of theirs that were idle at the start are
posted only if they were raised since. -/
structure Tracked (pairs : List FlagPair) (raisings : World → Nat → Nat) (idle : Nat → Prop)
    (start m : Machine World) : Prop extends MaskedBut (fun _ _ => False) pairs m where
  part : m.part = start.part
  counted : ∀ vector, raisings start.world vector ≤ raisings m.world vector
  fresh : ∀ {pair bit vector}, Wired pairs pair bit vector → idle vector →
    m.interrupts.table.isPosted vector = true →
    raisings start.world vector < raisings m.world vector

/-- A vector of no pair. -/
def Unwired (pairs : List FlagPair) (vector : Nat) : Prop :=
  ∀ pair bit, ¬ Wired pairs pair bit vector

section Tracking

variable {raisings : World → Nat → Nat} {idle : Nat → Prop} {start : Machine World}

theorem Tracked.of_aside (tracked : Tracked pairs raisings idle start m)
    (aside : Aside pairs raisings m next) : Tracked pairs raisings idle start next where
  toMaskedBut := tracked.toMaskedBut.of_aside aside
  part := aside.part.trans tracked.part
  counted vector := Nat.le_trans (tracked.counted vector) (aside.counted vector)
  fresh wired rested posted :=
    Nat.lt_of_lt_of_le
      (tracked.fresh wired rested ((aside.drives .flags wired).symm.trans posted))
      (aside.counted _)

theorem Tracked.of_eq (tracked : Tracked pairs raisings idle start m)
    (interrupts : next.interrupts = m.interrupts) (io : next.io = m.io)
    (part : next.part = m.part) (spm : next.spm = m.spm) (world : next.world = m.world) :
    Tracked pairs raisings idle start next :=
  tracked.of_aside (.of_eq interrupts io part (fun absent => spm.trans absent)
    fun _ => Nat.le_of_eq (by rw [world]))

/-- A store into one half of a pair, with the vectors told, raises a vector only if it sets a flag
that was clear. -/
theorem Tracked.stored (tracked : Tracked pairs raisings idle start m) {half : Half}
    {old new : UInt8} {table : Table} (member : pair ∈ pairs)
    (installed : m.kindAt (half.register pair) = some (half.kind old pair))
    (masked : Masked pairs ((m.setIoStored (half.register pair) new).setTable table))
    (raised : half = .flags → ∀ {bit vector}, (bit, vector) ∈ pair.mapped →
      byteBit new bit = true → byteBit old bit = true ∨
        raisings start.world vector < raisings m.world vector) :
    Tracked pairs raisings idle start ((m.setIoStored (half.register pair) new).setTable table)
    where
  toMaskedBut := masked
  part := tracked.part
  counted := tracked.counted
  fresh {pair' bit vector} wired rested posted := by
    obtain ⟨value, kind, drives⟩ := tracked.drives pair' wired.1 .flags
    obtain ⟨value', kind', drives'⟩ := masked.drives pair' wired.1 .flags
    have before : byteBit value bit = true → m.interrupts.table.isPosted vector = true :=
      (drives wired.2 id).trans
    have after : byteBit value' bit = true := (drives' wired.2 id).symm.trans posted
    have same : kindAt (m.setIoStored (half.register pair) new) (Half.flags.register pair') =
        some (.flags value' pair') := kind'
    rw [kindAt_setIoStored, kind] at same
    split at same
    · next register =>
      obtain ⟨rfl, rfl⟩ := tracked.layout.registers pair member pair' wired.1 half .flags register
      obtain ⟨-, rfl, -⟩ := Half.kind_injective (Option.some.inj (kind.symm.trans installed))
      cases same
      rcases raised rfl wired.2 after with already | counted
      · exact tracked.fresh wired rested (before already)
      · exact counted
    · cases same
      exact tracked.fresh wired rested (before after)

/-- A register of the core is no half of a pair. -/
theorem Paired.neither (paired : Paired pairs m) {register : Nat}
    (core : register ∈ ownRegisters m.part) (half : Half) (value : UInt8) (pair : FlagPair) :
    m.kindAt register ≠ some (half.kind value pair) := by
  intro installed
  obtain ⟨member, rfl⟩ := paired.only installed
  exact paired.layout.core pair member half core

/-! ### Single changes -/

theorem exists_half_of_vectorChange {change : Table → Nat → Except Fault Table}
    (operation : VectorChange change) : ∃ (half : Half) (set : Bool), change = half.change set := by
  cases operation with
  | post => exact ⟨.flags, true, rfl⟩
  | unpost => exact ⟨.flags, false, rfl⟩
  | enable => exact ⟨.mask, true, rfl⟩
  | disable => exact ⟨.mask, false, rfl⟩

theorem invariant_tracked (counts : env.Counts raisings)
    (upholds : env.Upholds (Tracked pairs raisings idle start)) :
    ProgramInvariant env (Tracked pairs raisings idle start) (Unwired pairs) where
  note notice tracked := tracked.of_aside (.of_eq rfl rfl rfl id (counts.note notice _))
  instrument handle hook _ := upholds.notify handle hook
  device handle hook _ := upholds.notify handle hook
  readDevice := upholds.readDevice
  writeDevice := upholds.writeDevice
  readDeviceBit := upholds.readDeviceBit
  writeDeviceBit := upholds.writeDeviceBit
  readOutside _ _ _ _ tracked :=
    tracked.of_aside (.of_eq rfl rfl rfl id (counts.readOutside _ _ _ _ _))
  writeOutside _ _ _ _ tracked :=
    tracked.of_aside (.of_eq rfl rfl rfl id (counts.writeOutside _ _ _ _ _))
  add _ _ tracked := tracked.of_eq rfl rfl rfl rfl rfl
  timeout tracked := tracked.of_eq rfl rfl rfl rfl rfl
  vector tracked operation unwired changed := by
    obtain ⟨half, set, rfl⟩ := exists_half_of_vectorChange operation
    exact tracked.of_aside (.setTable_of_change tracked.table changed unwired)
  load tracked _ := tracked.of_eq rfl rfl rfl rfl rfl
  settleIn _ _ tracked := tracked.of_eq rfl rfl rfl rfl rfl
  addOwner _ tracked := tracked.of_eq rfl rfl rfl rfl rfl
  dropOwner _ tracked := tracked.of_eq rfl rfl rfl rfl rfl
  compute _ _ tracked _ := tracked.of_eq rfl rfl rfl rfl rfl
  allow {m} tracked :=
    (tracked.of_aside (.setTable_stale m true)).of_eq rfl rfl rfl rfl rfl
  forbid tracked := tracked.of_eq rfl rfl rfl rfl rfl

theorem unconcerned_tracked (start : Machine World) :
    Unconcerned (Itself (Tracked pairs raisings idle start)) := by
  refine unconcerned_itself (fun _ tracked => tracked.of_eq rfl rfl rfl rfl rfl)
    fun change tracked => ?_
  refine tracked.of_aside (.of_eq rfl rfl rfl (fun absent => ?_) fun _ => Nat.le_refl _)
  rw [modifySpm, absent]
  rfl

theorem stepInvariant_tracked (start : Machine World) :
    StepInvariant (Tracked pairs raisings idle start) where
  jump _ tracked := tracked.of_eq rfl rfl rfl rfl rfl
  count tracked := tracked.of_eq rfl rfl rfl rfl rfl
  returned _ tracked := tracked.of_eq rfl rfl rfl rfl rfl
  breaking tracked := tracked.of_eq rfl rfl rfl rfl rfl
  wake tracked := tracked.of_eq rfl rfl rfl rfl rfl
  spend tracked := tracked.of_eq rfl rfl rfl rfl rfl
  rest tracked := tracked.of_eq rfl rfl rfl rfl rfl
  look _ tracked := tracked.of_eq rfl rfl rfl rfl rfl
  halt tracked := tracked.of_eq rfl rfl rfl rfl rfl
  stale stale tracked := tracked.of_aside (.setTable_stale _ stale)
  fetch tracked _ := tracked.of_eq rfl rfl rfl rfl rfl

/-! ### Accesses -/

theorem agree_itself_of_run {ε α : Type} {P : Machine World → Prop}
    {act : ExceptT ε (Action World) α} {result : Except ε α}
    (ran : act.run m = (result, next)) (holds : P next) :
    Attempt.Agree (Itself P) act act m m :=
  ⟨rfl, rfl, by rw [ran]; exact holds⟩

/-- A write of one half of a pair that raises no vector. -/
theorem Tracked.agree_write (tracked : Tracked pairs raisings idle start m) (half : Half)
    {register : Nat} {old : UInt8} (installed : m.kindAt register = some (half.kind old pair))
    (new : UInt8)
    (raised : half = .flags → ∀ {bit}, byteBit new bit = true → byteBit old bit = true) :
    Attempt.Agree (Itself (Tracked pairs raisings idle start))
      (do
        modify fun m => m.setIoStored register new
        Half.sync env half new (pair.changed old new) : Attempt World Unit)
      (do
        modify fun m => m.setIoStored register new
        Half.sync env half new (pair.changed old new)) m m := by
  obtain ⟨member, rfl⟩ := tracked.only installed
  obtain ⟨table, ran, masked⟩ := tracked.toMaskedBut.exists_write env member installed new
    fun _ _ never => never.elim
  exact agree_itself_of_run ran (tracked.stored member installed masked fun flags _ _ _ isSet =>
    .inl (raised flags isSet))

theorem Tracked.setIoStored (tracked : Tracked pairs raisings idle start m) {register : Nat}
    (core : register ∈ ownRegisters m.part) (value : UInt8) :
    Tracked pairs raisings idle start (m.setIoStored register value) :=
  tracked.of_aside (.setIoStored (tracked.neither core) value)

theorem Tracked.setStackPointer (tracked : Tracked pairs raisings idle start m) (value : UInt16) :
    Tracked pairs raisings idle start (m.setStackPointer value) := by
  have low := tracked.setIoStored (show m.part.stackLow ∈ ownRegisters m.part by
    simp [ownRegisters]) (UInt8.ofNat value.toNat)
  exact low.setIoStored (show m.part.stackHigh ∈ ownRegisters m.part by simp [ownRegisters]) _

/-- Setting or clearing a flag keeps the pairs in step, if the vector counts as raised. -/
theorem Tracked.withFlag (tracked : Tracked pairs raisings idle start m) {table : Table}
    {set : Bool} (masked : Masked pairs ((m.withFlag pair bit set).setTable table))
    (member : pair ∈ pairs) (below : bit < 8)
    (raised : set = true → ∀ {vector}, (bit, vector) ∈ pair.mapped →
      raisings start.world vector < raisings m.world vector) :
    Tracked pairs raisings idle start ((m.withFlag pair bit set).setTable table) := by
  obtain ⟨old, installed, -⟩ := tracked.drives pair member .flags
  have stored : m.ioStored pair.flagRegister = old := ioStored_of_kindAt _ installed
  rw [Machine.withFlag, stored] at masked ⊢
  refine tracked.stored member installed masked fun _ {bit' vector} mapped isSet => ?_
  rw [byteBit_withBit old below (tracked.layout.bits ⟨member, mapped⟩)] at isSet
  split at isSet
  · next same =>
    subst same
    exact .inr (raised isSet mapped)
  · exact .inl isSet

theorem Tracked.exists_setFlagBit (env : Environment World)
    (tracked : Tracked pairs raisings idle start m) (member : pair ∈ pairs) (below : bit < 8)
    (set : Bool)
    (raised : set = true → ∀ {vector}, (bit, vector) ∈ pair.mapped →
      raisings start.world vector < raisings m.world vector) :
    ∃ next, (setFlagBit env pair bit set).run m = (.ok (), next) ∧
      Tracked pairs raisings idle start next := by
  obtain ⟨table, ran, masked⟩ := tracked.toMaskedBut.exists_setFlagBit env member bit set
    fun _ _ never => never.elim
  exact ⟨_, ran, tracked.withFlag masked member below raised⟩

/-- Where the unit can be written at all, its vector is not one of the pairs. -/
theorem Tracked.agree_writeSpmControl (counts : env.Counts raisings)
    (upholds : env.Upholds (Tracked pairs raisings idle start))
    (tracked : Tracked pairs raisings idle start m)
    (present : m.spm.isSome = true ∨
      ∃ register, m.kindAt register = some (.device .selfProgramming)) (value : UInt8) :
    Attempt.Agree (Itself (Tracked pairs raisings idle start)) (writeSpmControl env value)
      (writeSpmControl env value) m m := by
  rcases tracked.apart with unwired | ⟨absent, registers⟩
  · have free (n : Machine World) (tracked' : Tracked pairs raisings idle start n) :
        Unwired pairs n.part.spmReady := by
      rw [tracked'.part, ← tracked.part]
      exact unwired
    have accord := (invariant_tracked counts upholds).accord
    exact (accord.mirrors_writeSpmControl
      (accord.mirrors_unschedule (unconcerned_tracked start).queue _)
      (fun _ => (unconcerned_tracked start).spm _)
      (fun _ n same => free n (same.eq ▸ same.holds)) value).agree m m ⟨rfl, tracked⟩
  · rcases present with unit | ⟨register, installed⟩
    · rw [absent] at unit
      cases unit
    · exact absurd installed (registers register)

theorem background_tracked (counts : env.Counts raisings)
    (upholds : env.Upholds (Tracked pairs raisings idle start)) :
    Background env (Itself (Tracked pairs raisings idle start)) Eq (Unwired pairs) where
  toAccord := (invariant_tracked counts upholds).accord
  device handle hook _ := (upholds.notify handle hook).itself
  cancel :=
    (invariant_tracked counts upholds).accord.mirrors_unschedule (unconcerned_tracked start).queue _
  queue := (unconcerned_tracked start).queue
  fill _ _ _ := (unconcerned_tracked start).spm _
  control value := fun ⟨same, tracked⟩ unit => by
    subst same
    exact tracked.agree_writeSpmControl counts upholds (.inl unit) value

theorem accesses_tracked (counts : env.Counts raisings)
    (upholds : env.Upholds (Tracked pairs raisings idle start)) :
    Accesses env (Itself (Tracked pairs raisings idle start)) Eq (Unwired pairs) where
  toComputing := (invariant_tracked counts upholds).computing
  store _ := fun ⟨same, tracked⟩ installed stores => by
    subst same
    refine ⟨rfl, tracked.of_aside (.setIoStored (fun half old pair installed' => ?_) _)⟩
    cases installed.symm.trans installed'
    cases half <;> cases stores
  stack value := fun ⟨same, tracked⟩ => by
    subst same
    exact ⟨rfl, tracked.setStackPointer value⟩
  extension value := fun ⟨same, tracked⟩ => by
    subst same
    exact ⟨rfl, tracked.setIoStored (by simp [ownRegisters]) value⟩
  unit value := fun ⟨same, tracked⟩ installed => by
    subst same
    exact tracked.agree_writeSpmControl counts upholds (.inr ⟨_, installed⟩) value
  flags value := fun ⟨same, tracked⟩ installed => by
    subst same
    simp only [syncPosted_eq]
    exact tracked.agree_write .flags installed _ fun _ _ isSet => by
      rw [byteBit_and, Bool.and_eq_true] at isSet
      exact isSet.1
  mask value := fun ⟨same, tracked⟩ installed => by
    subst same
    simp only [syncEnabled_eq]
    exact tracked.agree_write .mask installed value nofun
  acknowledge := fun ⟨same, tracked⟩ told => by
    subst same
    obtain ⟨wired, -⟩ := tracked.notified told
    obtain ⟨next, ran, after⟩ := tracked.exists_setFlagBit env wired.1
      (tracked.layout.bits wired) false nofun
    exact agree_itself_of_run ran after

theorem stepwise_tracked (counts : env.Counts raisings)
    (upholds : env.Upholds (Tracked pairs raisings idle start)) :
    Stepwise env (Itself (Tracked pairs raisings idle start)) Eq (Unwired pairs) :=
  (accesses_tracked counts upholds).stepwise
    (fun cycles => ((background_tracked counts upholds).mirrors_advance cycles).keeps)
    (stepInvariant_tracked start).toExecutionInvariant

theorem handles_tracked (counts : env.Counts raisings)
    (upholds : env.Upholds (Tracked pairs raisings idle start)) (i : Isa.Instr) :
    Handles env (Itself (Tracked pairs raisings idle start)) i :=
  (invariant_tracked counts upholds).computing.handles
    (fun _ _ tracked => tracked.of_eq rfl rfl rfl rfl rfl)
    (fun _ => (background_tracked counts upholds).mirrors_storeProgram.keeps)
    fun _ _ tracked => tracked.of_eq rfl rfl rfl rfl rfl

end Tracking

end Machine

end Avr

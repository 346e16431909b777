import Avr.Machine.Reset
import Avr.Proofs.Interrupt.Halves

/-!
Contract: flag and mask registers in step with the interrupt table.

Owns:
- pairs on a machine, apart from each other and from the registers of the core;
- machines on which every pair is in step, perhaps but for vectors in doubt;
- writes of one half of a pair, which put its vectors in doubt and settle them one by one.

Only vectors whose bit changes are told to the table, so all others have to be right beforehand.
-/

namespace Avr.Machine

open Avr.Interrupt Avr.Io

variable {World : Type}

/-! ### Kinds of registers -/

/-- What is installed as an IO register, under its wrapper. -/
abbrev kindAt (m : Machine World) (register : Nat) : Option Kind :=
  m.io[register]?.map Register.kind

theorem kindAt_setIoStored (m : Machine World) (register : Nat) (value : UInt8) (other : Nat) :
    (m.setIoStored register value).kindAt other =
      if register = other then (m.kindAt other).map (Kind.store · value) else m.kindAt other := by
  simp only [kindAt, setIoStored, Array.getElem?_modify]
  split
  · cases m.io[other]? with
    | none => rfl
    | some r => exact congrArg some (Register.kind_withKind r _)
  · rfl

/-! ### Pairs on a machine -/

/-- The registers that the core of a part uses itself. -/
def ownRegisters (part : Part) : List Nat :=
  [part.statusRegister, part.stackLow, part.stackHigh, part.extension, part.spmControl]

/-- A bit of one of the pairs has the vector. -/
def Wired (pairs : List FlagPair) (pair : FlagPair) (bit vector : Nat) : Prop :=
  pair ∈ pairs ∧ (bit, vector) ∈ pair.mapped

/-- No two pairs share a register, nor a pair and the core, and no two bits share a vector. -/
structure Layout (part : Part) (pairs : List FlagPair) : Prop where
  registers : ∀ pair ∈ pairs, ∀ pair' ∈ pairs, ∀ half half' : Half,
    half.register pair = half'.register pair' → pair = pair' ∧ half = half'
  core : ∀ pair ∈ pairs, ∀ half : Half, half.register pair ∉ ownRegisters part
  vectors : ∀ {pair pair' bit bit' vector}, Wired pairs pair bit vector →
    Wired pairs pair' bit' vector → pair = pair' ∧ bit = bit'
  bits : ∀ {pair bit vector}, Wired pairs pair bit vector → bit < 8

/-- Self-programming never posts a vector of a pair. -/
def SpmApart (pairs : List FlagPair) (m : Machine World) : Prop :=
  (∀ pair bit, ¬ Wired pairs pair bit m.part.spmReady) ∨
    (m.spm = none ∧ ∀ register, m.kindAt register ≠ some (.device .selfProgramming))

/-- The pairs are installed, with no others and no probes of interrupts. -/
structure Paired (pairs : List FlagPair) (m : Machine World) : Prop where
  layout : Layout m.part pairs
  table : m.interrupts.table.Sound
  quiet : ∀ vector, m.interrupts.probesFor vector = []
  apart : SpmApart pairs m
  only : ∀ {register} {half : Half} {value pair},
    m.kindAt register = some (half.kind value pair) → pair ∈ pairs ∧ register = half.register pair
  inside : ∀ {pair bit vector}, Wired pairs pair bit vector → vector < m.interrupts.table.size
  heard : ∀ {pair bit vector}, Wired pairs pair bit vector →
    m.interrupts.notification? vector = some (.flag pair bit (pair.isSticky bit))
  notified : ∀ {vector pair bit sticky},
    m.interrupts.notification? vector = some (.flag pair bit sticky) →
      Wired pairs pair bit vector ∧ sticky = pair.isSticky bit

/-- Every half of a pair drives its vectors as its bits say, apart from vectors in doubt. -/
structure MaskedBut (doubt : Half → Nat → Prop) (pairs : List FlagPair) (m : Machine World) : Prop
    extends Paired pairs m where
  drives : ∀ pair ∈ pairs, ∀ half : Half, ∃ value,
    m.kindAt (half.register pair) = some (half.kind value pair) ∧
      ∀ {bit vector}, (bit, vector) ∈ pair.mapped → ¬ doubt half vector →
        half.drives m.interrupts.table vector = byteBit value bit

/-- Every pair is in step with the interrupt table. -/
abbrev Masked : List FlagPair → Machine World → Prop :=
  MaskedBut fun _ _ => False

variable {doubt : Half → Nat → Prop} {pairs : List FlagPair} {raisings : World → Nat → Nat}
  {m next : Machine World}

/-- What the pairs depend on is as it was, and no vector was raised less often than before. -/
structure Aside (pairs : List FlagPair) (raisings : World → Nat → Nat) (m next : Machine World) :
    Prop where
  part : next.part = m.part
  size : next.interrupts.table.size = m.interrupts.table.size
  table : m.interrupts.table.Sound → next.interrupts.table.Sound
  drives : ∀ (half : Half) {pair bit vector}, Wired pairs pair bit vector →
    half.drives next.interrupts.table vector = half.drives m.interrupts.table vector
  probes : (∀ vector, m.interrupts.probesFor vector = []) →
    ∀ vector, next.interrupts.probesFor vector = []
  notifications : ∀ vector pair bit sticky,
    next.interrupts.notification? vector = some (.flag pair bit sticky) ↔
      m.interrupts.notification? vector = some (.flag pair bit sticky)
  kinds : ∀ register (half : Half) value pair,
    next.kindAt register = some (half.kind value pair) ↔
      m.kindAt register = some (half.kind value pair)
  spm : m.spm = none → next.spm = none
  unit : ∀ register, next.kindAt register = some (.device .selfProgramming) →
    m.kindAt register = some (.device .selfProgramming)
  counted : ∀ vector, raisings m.world vector ≤ raisings next.world vector

theorem Paired.of_aside (paired : Paired pairs m) (aside : Aside pairs raisings m next) :
    Paired pairs next where
  layout := aside.part ▸ paired.layout
  table := aside.table paired.table
  quiet := aside.probes paired.quiet
  apart := by
    refine paired.apart.imp (fun unwired => aside.part ▸ unwired) fun ⟨absent, registers⟩ => ?_
    exact ⟨aside.spm absent, fun register installed =>
      registers register (aside.unit register installed)⟩
  only := fun installed => paired.only ((aside.kinds _ _ _ _).mp installed)
  inside := fun wired => aside.size ▸ paired.inside wired
  heard := fun wired => (aside.notifications _ _ _ _).mpr (paired.heard wired)
  notified := fun told => paired.notified ((aside.notifications _ _ _ _).mp told)

theorem MaskedBut.of_aside (masked : MaskedBut doubt pairs m)
    (aside : Aside pairs raisings m next) : MaskedBut doubt pairs next where
  toPaired := masked.toPaired.of_aside aside
  drives pair member half := by
    obtain ⟨value, kind, drives⟩ := masked.drives pair member half
    exact ⟨value, (aside.kinds _ _ _ _).mpr kind, fun wired sure =>
      (aside.drives half ⟨member, wired⟩).trans (drives wired sure)⟩

theorem Aside.of_eq (interrupts : next.interrupts = m.interrupts) (io : next.io = m.io)
    (part : next.part = m.part) (spm : m.spm = none → next.spm = none)
    (counted : ∀ vector, raisings m.world vector ≤ raisings next.world vector) :
    Aside pairs raisings m next where
  part := part
  size := by rw [interrupts]
  table := fun sound => interrupts ▸ sound
  drives _ _ _ _ _ := by rw [interrupts]
  probes := fun quiet => interrupts ▸ quiet
  notifications _ _ _ _ := by rw [interrupts]
  kinds _ _ _ _ := by rw [kindAt, io]
  spm := spm
  unit _ := by
    rw [kindAt, io]
    exact id
  counted := counted

/-- The mark of the table is nothing to the pairs. -/
theorem Aside.setTable_stale (m : Machine World) (stale : Bool) :
    Aside pairs raisings m (m.setTable { m.interrupts.table with stale }) where
  part := rfl
  size := rfl
  table := fun sound => sound.with_stale stale
  drives half _ _ _ _ := by cases half <;> rfl
  probes := id
  notifications _ _ _ _ := .rfl
  kinds _ _ _ _ := .rfl
  spm := id
  unit _ := id
  counted _ := Nat.le_refl _

theorem MaskedBut.mono (masked : MaskedBut doubt pairs m) {more : Half → Nat → Prop}
    (le : ∀ half vector, doubt half vector → more half vector) : MaskedBut more pairs m where
  toPaired := masked.toPaired
  drives pair member half := by
    obtain ⟨value, kind, drives⟩ := masked.drives pair member half
    exact ⟨value, kind, fun wired sure => drives wired fun unsure => sure (le _ _ unsure)⟩

/-! ### Stores -/

/-- A store changes no kind of register into another. -/
theorem kind_of_store {kind stored : Kind} {value : UInt8} (same : kind.store value = stored) :
    (∀ device, stored = .device device → kind = .device device) ∧
      ∀ (half : Half) new pair, stored = half.kind new pair → ∃ old, kind = half.kind old pair := by
  subst same
  refine ⟨fun device same => ?_, fun half new pair same => ?_⟩
  · cases kind <;> simp_all [Kind.store]
  · cases half <;> cases kind <;> simp_all [Kind.store, Half.kind]

theorem exists_kindAt_of_setIoStored {register other : Nat} {value : UInt8} {stored : Kind}
    (installed : (m.setIoStored register value).kindAt other = some stored) :
    m.kindAt other = some stored ∨
      ∃ kind, m.kindAt other = some kind ∧ kind.store value = stored := by
  rw [kindAt_setIoStored] at installed
  split at installed
  · exact .inr (Option.map_eq_some_iff.mp installed)
  · exact .inl installed

theorem Paired.setIoStored (paired : Paired pairs m) (register : Nat) (value : UInt8) :
    Paired pairs (m.setIoStored register value) where
  layout := paired.layout
  table := paired.table
  quiet := paired.quiet
  apart := by
    refine paired.apart.imp id fun ⟨absent, registers⟩ => ⟨absent, fun other installed => ?_⟩
    rcases exists_kindAt_of_setIoStored installed with same | ⟨kind, before, stores⟩
    · exact registers other same
    · exact registers other ((kind_of_store stores).1 _ rfl ▸ before)
  only := by
    intro other half new pair installed
    rcases exists_kindAt_of_setIoStored installed with same | ⟨kind, before, stores⟩
    · exact paired.only same
    · obtain ⟨old, rfl⟩ := (kind_of_store stores).2 half new pair rfl
      exact paired.only before
  inside := paired.inside
  heard := paired.heard
  notified := paired.notified

/-- A store into a register that is no half of a pair is nothing to the pairs. -/
theorem Aside.setIoStored {register : Nat}
    (neither : ∀ (half : Half) value pair, m.kindAt register ≠ some (half.kind value pair))
    (value : UInt8) : Aside pairs raisings m (m.setIoStored register value) where
  part := rfl
  size := rfl
  table := id
  drives _ _ _ _ _ := rfl
  probes := id
  notifications _ _ _ _ := .rfl
  kinds other half new pair := by
    rw [kindAt_setIoStored]
    split
    · next same =>
      subst same
      refine iff_of_false (fun installed => ?_) (neither half new pair)
      obtain ⟨kind, before, stores⟩ := Option.map_eq_some_iff.mp installed
      obtain ⟨old, rfl⟩ := (kind_of_store stores).2 half new pair rfl
      exact neither half old pair before
    · exact .rfl
  spm := id
  unit other installed := by
    rcases exists_kindAt_of_setIoStored installed with same | ⟨kind, before, stores⟩
    · exact same
    · exact (kind_of_store stores).1 _ rfl ▸ before
  counted _ := Nat.le_refl _

/-- A store into one half of a pair puts those vectors in doubt whose bits change. -/
theorem MaskedBut.setIoStored_half (masked : MaskedBut doubt pairs m) {pair : FlagPair}
    {half : Half} {old : UInt8} (member : pair ∈ pairs)
    (installed : m.kindAt (half.register pair) = some (half.kind old pair)) (new : UInt8) :
    MaskedBut
      (fun half' vector => doubt half' vector ∨
        half' = half ∧ ∃ bit, (bit, vector) ∈ pair.changed old new)
      pairs (m.setIoStored (half.register pair) new) where
  toPaired := masked.toPaired.setIoStored _ new
  drives pair' member' half' := by
    obtain ⟨value, kind, drives⟩ := masked.drives pair' member' half'
    by_cases same : half.register pair = half'.register pair'
    · obtain ⟨rfl, rfl⟩ := masked.layout.registers pair member pair' member' half half' same
      refine ⟨new, ?_, fun {bit vector} wired sure => ?_⟩
      · rw [kindAt_setIoStored, if_pos rfl, installed]
        exact congrArg some (Half.store_kind _ _ _ _)
      · obtain ⟨-, rfl, -⟩ := Half.kind_injective (Option.some.inj (kind.symm.trans installed))
        obtain ⟨certain, unchanged⟩ := not_or.mp sure
        refine (drives wired certain).trans (Classical.byContradiction fun differs => ?_)
        exact unchanged ⟨rfl, bit, FlagPair.mem_changed.mpr ⟨wired, differs⟩⟩
    · refine ⟨value, ?_, fun wired sure => drives wired fun unsure => sure (.inl unsure)⟩
      rw [kindAt_setIoStored, if_neg same, kind]

/-! ### The interrupt table -/

section Tables

variable {half : Half} {set : Bool} {vector : Nat} {table : Table}

theorem Paired.setTable_of_change (paired : Paired pairs m)
    (changed : half.change set m.interrupts.table vector = .ok table) :
    Paired pairs (m.setTable table) where
  layout := paired.layout
  table := paired.table.change (half.isChange set changed)
  quiet := paired.quiet
  apart := paired.apart
  only := paired.only
  inside wired := Nat.lt_of_lt_of_eq (paired.inside wired) (half.size_of_change set changed).symm
  heard := paired.heard
  notified := paired.notified

/-- A vector of no pair may be changed by anyone. -/
theorem Aside.setTable_of_change (sound : m.interrupts.table.Sound)
    (changed : half.change set m.interrupts.table vector = .ok table)
    (free : ∀ pair bit, ¬ Wired pairs pair bit vector) :
    Aside pairs raisings m (m.setTable table) where
  part := rfl
  size := half.size_of_change set changed
  table := fun sound => sound.change (half.isChange set changed)
  drives half' pair bit other wired := by
    have elsewhere : other ≠ vector := fun same => free pair bit (same ▸ wired)
    by_cases same : half' = half
    · subst same
      exact (Half.drives_of_change sound changed other).trans (if_neg elsewhere)
    · exact Half.drives_of_change_other changed same other
  probes := id
  notifications _ _ _ _ := .rfl
  kinds _ _ _ _ := .rfl
  spm := id
  unit _ := id
  counted _ := Nat.le_refl _

/-- A change of a vector brings no other vector in doubt, and settles its own if it follows the bit. -/
theorem MaskedBut.setTable_of_change (masked : MaskedBut doubt pairs m)
    (changed : half.change set m.interrupts.table vector = .ok table) {less : Half → Nat → Prop}
    (le : ∀ half' other, doubt half' other → less half' other ∨ half' = half ∧ other = vector)
    (follows : ∀ {pair bit value}, Wired pairs pair bit vector →
      m.kindAt (half.register pair) = some (half.kind value pair) → ¬ less half vector →
      set = byteBit value bit) :
    MaskedBut less pairs (m.setTable table) where
  toPaired := masked.toPaired.setTable_of_change changed
  drives pair member half' := by
    obtain ⟨value, kind, drives⟩ := masked.drives pair member half'
    refine ⟨value, kind, fun {bit other} wired sure => ?_⟩
    by_cases same : half' = half
    · subst same
      rw [setTable, Half.drives_of_change masked.table changed]
      split
      · next here =>
        subst here
        exact follows ⟨member, wired⟩ kind sure
      · next elsewhere =>
        refine drives wired fun unsure => ?_
        exact (le _ _ unsure).elim sure fun here => elsewhere here.2
    · rw [setTable, Half.drives_of_change_other changed same]
      exact drives wired fun unsure => (le _ _ unsure).elim sure fun here => same here.1

end Tables

/-! ### Writes of one half -/

variable {env : Environment World}

/-- Set or clear a vector for one half, with its probes. -/
def Half.drive (env : Environment World) : Half → Nat → Bool → Attempt World Unit
  | .flags => setPosted env
  | .mask => setEnabled env

/-- Tell the table about the bits of one half that changed. -/
def Half.sync (env : Environment World) (half : Half) (new : UInt8) (entries : List (Nat × Nat)) :
    Attempt World Unit :=
  entries.forM fun (bit, vector) => Half.drive env half vector (byteBit new bit)

theorem syncPosted_eq (pair : FlagPair) (old new : UInt8) :
    syncPosted env pair old new = Half.sync env .flags new (pair.changed old new) := rfl

theorem syncEnabled_eq (pair : FlagPair) (old new : UInt8) :
    syncEnabled env pair old new = Half.sync env .mask new (pair.changed old new) := rfl

theorem run_changeVector {change : Table → Nat → Except Fault Table} {hook : Nat → Hook}
    {vector : Nat} {table : Table} (quiet : m.interrupts.probesFor vector = [])
    (changed : change m.interrupts.table vector = .ok table) :
    (changeVector env change hook vector).run m = (.ok (), m.setTable table) := by
  have sets : (attempt fun m => return m.setTable (← change m.interrupts.table vector) :
      Attempt World Unit).run m = (.ok (), m.setTable table) := by
    rw [Attempt.run_attempt, changed]
    rfl
  have silent : notifyVector env vector hook (m.setTable table) = ((), m.setTable table) := by
    change notifyAll env (m.interrupts.probesFor vector) (hook vector) (m.setTable table) = _
    rw [quiet]
    rfl
  rw [changeVector, Attempt.run_bind, sets]
  dsimp only
  rw [Attempt.run_lift, silent]

/-- Without probes a vector that has a slot is changed, and nothing else. -/
theorem run_drive (half : Half) (set : Bool) {vector : Nat} {table : Table}
    (quiet : m.interrupts.probesFor vector = [])
    (changed : half.change set m.interrupts.table vector = .ok table) :
    (Half.drive env half vector set).run m = (.ok (), m.setTable table) := by
  cases half <;> cases set <;> exact run_changeVector quiet changed

/-- Vectors in doubt are settled one by one. -/
theorem MaskedBut.exists_sync {pair : FlagPair} {half : Half} {new : UInt8}
    (entries : List (Nat × Nat)) (wired : ∀ entry ∈ entries, entry ∈ pair.mapped)
    (member : pair ∈ pairs)
    (masked : MaskedBut
      (fun half' vector => half' = half ∧ ∃ bit, (bit, vector) ∈ entries) pairs m)
    (installed : m.kindAt (half.register pair) = some (half.kind new pair)) :
    ∃ table, (Half.sync env half new entries).run m = (.ok (), m.setTable table) ∧
      Masked pairs (m.setTable table) := by
  induction entries generalizing m with
  | nil =>
      refine ⟨m.interrupts.table, rfl, ?_⟩
      exact masked.mono fun _ _ ⟨_, _, found⟩ => by cases found
  | cons entry rest inductionHypothesis =>
      obtain ⟨bit, vector⟩ := entry
      have first : Wired pairs pair bit vector := ⟨member, wired _ List.mem_cons_self⟩
      obtain ⟨table, changed⟩ := half.exists_change (byteBit new bit) (masked.inside first)
      have settled : MaskedBut
          (fun half' vector => half' = half ∧ ∃ bit, (bit, vector) ∈ rest) pairs
          (m.setTable table) := by
        refine masked.setTable_of_change changed ?_ ?_
        · rintro half' other ⟨same, bit', found⟩
          rcases List.mem_cons.mp found with here | later
          · cases here
            exact .inr ⟨same, rfl⟩
          · exact .inl ⟨same, bit', later⟩
        · intro pair' bit' value wired' kind _
          obtain ⟨rfl, rfl⟩ := masked.layout.vectors first wired'
          obtain ⟨-, rfl, -⟩ := Half.kind_injective (Option.some.inj (kind.symm.trans installed))
          rfl
      obtain ⟨last, ran, done⟩ := inductionHypothesis
        (fun entry found => wired entry (List.mem_cons_of_mem _ found)) settled installed
      refine ⟨last, ?_, done⟩
      have drives : (Half.drive env half vector (byteBit new bit)).run m =
          (.ok (), m.setTable table) :=
        run_drive half (byteBit new bit) (masked.quiet vector) changed
      change (Half.drive env half vector (byteBit new bit) >>= fun _ =>
        Half.sync env half new rest).run m = _
      rw [Attempt.run_bind, drives]
      exact ran

/-- A write of one half of a pair leaves every pair in step, if its vectors were in doubt only where
bits change. -/
theorem MaskedBut.exists_write (env : Environment World) (masked : MaskedBut doubt pairs m) {pair : FlagPair} {half : Half}
    {old : UInt8} (member : pair ∈ pairs)
    (installed : m.kindAt (half.register pair) = some (half.kind old pair)) (new : UInt8)
    (settles : ∀ half' vector, doubt half' vector →
      half' = half ∧ ∃ bit, (bit, vector) ∈ pair.changed old new) :
    ∃ table,
      (Half.sync env half new (pair.changed old new)).run
        (m.setIoStored (half.register pair) new) =
          (.ok (), (m.setIoStored (half.register pair) new).setTable table) ∧
      Masked pairs ((m.setIoStored (half.register pair) new).setTable table) := by
  have stored := (masked.setIoStored_half member installed new).mono
    fun half' vector unsure => unsure.elim (settles half' vector) id
  refine MaskedBut.exists_sync _ (fun _ found => (List.mem_filter.mp found).1) member stored ?_
  rw [kindAt_setIoStored, if_pos rfl, installed]
  exact congrArg some (Half.store_kind _ _ _ _)

end Avr.Machine

import Avr.Machine.Run
import Avr.Proofs.Machine.InStep

/-!
Contract: machines that differ in how their last execution ended.

Owns:
- machines abreast, as an accord that withstands whole steps;
- environments in which nobody who is called asks how the last execution ended.

A step neither reads nor writes the record of the last execution. It is only those who are called
that may, so they decide whether machines abreast stay so.
-/

namespace Avr

namespace Machine

variable {World : Type} {env : Environment World} {m n : Machine World}

/-- The machines differ at most in the record of how their last execution ended. -/
def Abreast (m n : Machine World) : Prop :=
  m.setPause .unsuccessful = n.setPause .unsuccessful

namespace Abreast

theorem refl (m : Machine World) : Abreast m m :=
  Eq.refl _

theorem symm (abreast : Abreast m n) : Abreast n m :=
  Eq.symm abreast

theorem trans {last : Machine World} (abreast : Abreast m n) (rest : Abreast n last) :
    Abreast m last :=
  Eq.trans abreast rest

theorem setPause (abreast : Abreast m n) (pause pause' : Pause) :
    Abreast (m.setPause pause) (n.setPause pause') :=
  abreast

theorem look {α : Type} (abreast : Abreast m n) (look : Machine World → α) :
    look (m.setPause .unsuccessful) = look (n.setPause .unsuccessful) :=
  congrArg look abreast

theorem map (abreast : Abreast m n) (change : Machine World → Machine World) :
    change (m.setPause .unsuccessful) = change (n.setPause .unsuccessful) :=
  abreast.look change

/-- With the same record the machines are the same. -/
theorem eq_of_setPause (abreast : Abreast m n) (pause : Pause) :
    m.setPause pause = n.setPause pause :=
  abreast.map (Machine.setPause · pause)

theorem akin (abreast : Abreast m n) : Akin m n :=
  abreast.look core

theorem flash (abreast : Abreast m n) : m.flash = n.flash :=
  abreast.look fun g => g.flash

theorem stopRequested (abreast : Abreast m n) : m.stopRequested = n.stopRequested :=
  abreast.look fun g => g.stopRequested

theorem concur_vector (abreast : Abreast m n)
    (change : Interrupt.Table → Nat → Except Fault Interrupt.Table) (vector : Nat) :
    Concur (fun table table' => Abreast (m.setTable table) (n.setTable table'))
      (change m.interrupts.table vector) (change n.interrupts.table vector) := by
  have tables : m.interrupts.table = n.interrupts.table :=
    abreast.look fun g => g.interrupts.table
  rw [tables]
  exact concur_itself fun table _ => abreast.map fun g => g.setTable table

theorem concur_load (abreast : Abreast m n) (offset : Nat) (values : List UInt8) :
    Concur (fun flash flash' => Abreast { m with flash } { n with flash := flash' })
      (m.flash.load offset values) (n.flash.load offset values) := by
  rw [abreast.flash]
  exact concur_itself fun flash _ => abreast.map fun g => { g with flash }

end Abreast

end Machine

/-- Nobody who is called asks how the last execution ended. -/
structure Environment.Incurious {World : Type} (env : Environment World) : Prop where
  notify : ∀ handle hook,
    Action.Mirrors Machine.Abreast (env.notify handle hook) (env.notify handle hook)
  readDevice : ∀ handle,
    Action.Mirrors Machine.Abreast (env.readDevice handle) (env.readDevice handle)
  writeDevice : ∀ handle value,
    Attempt.Mirrors Machine.Abreast (env.writeDevice handle value) (env.writeDevice handle value)
  readDeviceBit : ∀ handle bit,
    Action.Mirrors Machine.Abreast (env.readDeviceBit handle bit) (env.readDeviceBit handle bit)
  writeDeviceBit : ∀ handle bit value,
    Attempt.Mirrors Machine.Abreast (env.writeDeviceBit handle bit value)
      (env.writeDeviceBit handle bit value)

namespace Machine

variable {World : Type} {env : Environment World}

theorem unconcerned_abreast : Unconcerned (Abreast : Machine World → _) where
  queue queue abreast := abreast.map fun g => g.setQueue queue
  spm change abreast := abreast.map fun g => g.modifySpm change

section Incurious

variable (incurious : env.Incurious)
include incurious

theorem accord_abreast : Accord env Abreast Eq fun _ => True where
  akin := Abreast.akin
  twin abreast instruments :=
    abreast.look fun g => instruments { g.unmarked with pause := .unsuccessful }
  note notice abreast := abreast.map fun g => { g with world := env.note notice g.world }
  instruments hook _ twin := twin ▸ .forM (fun handle => incurious.notify handle hook) _
  add event delay abreast := abreast.map fun g => g.setQueue (g.clock.queue.add event delay)
  timeout abreast := abreast.map fun g => { g with halt := g.halt.or (some .timeout) }
  vector abreast _ _ := abreast.concur_vector _ _
  load offset values abreast := abreast.concur_load offset values
  settleIn id state abreast := abreast.map fun g => g.settleIn id state
  addOwner id abreast := abreast.map fun g => g.addOwner id
  dropOwner id abreast := abreast.map fun g => g.dropOwner id

theorem computing_abreast : Computing env Abreast Eq fun _ => True where
  toQuietAccord := (accord_abreast incurious).toQuietAccord
  device handle hook _ := incurious.notify handle hook
  readDevice := incurious.readDevice
  writeDevice := incurious.writeDevice
  readDeviceBit := incurious.readDeviceBit
  writeDeviceBit := incurious.writeDeviceBit
  readOutside handle segment address blank abreast :=
    ⟨abreast.look fun g => (env.readOutside handle segment address blank g.world).1,
      abreast.map fun g =>
        { g with world := (env.readOutside handle segment address blank g.world).2 }⟩
  writeOutside handle segment address value abreast :=
    abreast.map fun g => { g with world := env.writeOutside handle segment address value g.world }
  compute bytes status abreast _ := abreast.map fun g => g.compute bytes status
  allow abreast := abreast.map allowed
  forbid abreast := abreast.map forbidden

theorem background_abreast : Background env Abreast Eq fun _ => True :=
  (computing_abreast incurious).background (accord_abreast incurious) unconcerned_abreast
    fun _ => trivial

theorem stepwise_abreast : Stepwise env Abreast Eq fun _ => True where
  toAccesses := (computing_abreast incurious).accesses unconcerned_abreast (fun _ => trivial)
    fun register value abreast => abreast.map fun g => g.setIoStored register value
  mirrors_advance := (background_abreast incurious).mirrors_advance
  jump pc abreast := abreast.map fun g => { g with pc }
  wake abreast := abreast.map awake
  count abreast := abreast.map fun g => { g with instructionsRun := g.instructionsRun + 1 }
  breaking abreast := abreast.map fun g => { g with state := .stopped, halt := some .break }
  spend abreast := abreast.map fun g => { g with delayCycles := 0 }
  look abreast := abreast.map fun g => { g with innerLoop := false }
  halt abreast := abreast.map fun g => { g with halt := none }

omit incurious in
theorem mirrors_fetch_abreast :
    Attempt.Mirrors Abreast (fetch : Attempt World Fetched) fetch := by
  apply Attempt.Mirrors.gettingAt
  intro m n abreast
  have fetches : m.flash.fetch m.pc = n.flash.fetch n.pc := by
    rw [abreast.flash, abreast.akin.pc]
  rw [fetches]
  cases n.flash.fetch n.pc with
  | error fault => exact (Attempt.Mirrors.throw fault).agree m n abreast
  | ok found => exact ⟨rfl, abreast.map fun g => { g with flash := found.2 }⟩

theorem inStep_abreast : InStep env Abreast where
  toStepwise := stepwise_abreast incurious
  flagless _ _ status abreast := abreast.map fun g => { g with status }
  handles _ := (computing_abreast incurious).handling
    (fun _ _ _ abreast => abreast.map fun g => { g with justReturned := true })
    (fun _ => (background_abreast incurious).mirrors_storeProgram)
    fun _ _ _ abreast => abreast.map asleep
  check := .answer
    (fun _ _ abreast => abreast.look fun g => (takeCheck g).2)
    fun _ _ abreast => abreast.map fun g => (takeCheck g).1
  fetch := mirrors_fetch_abreast
  returned justReturned abreast :=
    abreast.map fun g => { g with justReturned, innerLoop := false }
  stopping abreast := abreast.map fun g => { g with state := .stopped, halt := some .stop }

end Incurious

end Machine

end Avr

import Avr.Proofs.Flash.Shown
import Avr.Proofs.Machine.Alongside
import Avr.Proofs.Machine.InStep

/-!
Contract: machines that cannot be told apart stay so under everything that is done to them.

Owns:
- what of a machine can be told from outside: everything but what its flash remembers, a mark of the
  interrupt table that is looked at anyway, and what a view does not show of the world;
- indistinct machines, as an accord that withstands whatever a step does, and steps as its mirrors;
- environments in which everyone who is called treats indistinct machines alike.

Instruments count here, unlike between machines that are alike.
-/

namespace Avr

open Avr.Interrupt

namespace Interrupt.Table

/-- The table with its mark only if nothing else has the table looked at. -/
def marked (t : Table) (innerLoop : Bool) : Table :=
  { t with stale := innerLoop && t.stale }

/-- The mark is equal, or it is of no use. -/
theorem concur_marked {t t' : Table} {change : Table → Nat → Except Fault Table}
    (operation : Machine.VectorChange change) {innerLoop : Bool}
    (same : t.marked innerLoop = t'.marked innerLoop) (vector : Nat) :
    Concur (fun next next' => next.marked innerLoop = next'.marked innerLoop) (change t vector)
      (change t' vector) := by
  cases innerLoop with
  | false => exact concur_of_vectorChange operation same vector
  | true =>
      obtain rfl : t = t' := same
      cases change t vector with
      | ok next => exact .ok rfl
      | error fault => exact .error fault

end Interrupt.Table

namespace Machine

variable {World Outside : Type} {env : Environment World} {view : World → Outside}
  {m n : Machine World}

/-- What can be told of a machine from outside. -/
def manifest (view : World → Outside) (m : Machine World) : Machine Outside :=
  { m with
    flash := m.flash.shown
    interrupts := { m.interrupts with table := m.interrupts.table.marked m.innerLoop }
    world := view m.world }

/-- The machines cannot be told apart, and their tables and flashes are as operations leave them. -/
structure Indistinct (view : World → Outside) (m n : Machine World) : Prop where
  shown : m.manifest view = n.manifest view
  left : m.interrupts.table.Sound ∧ m.flash.Coherent
  right : n.interrupts.table.Sound ∧ n.flash.Coherent

theorem guest_manifest (view : World → Outside) (m : Machine World) :
    (m.manifest view).guest id = m.guest view := by
  have flash : m.flash.shown.bare = m.flash.bare := by
    rw [Flash.bare, Flash.bare, Flash.size_slots_shown]
    rfl
  simp only [guest, manifest, flash]
  rfl

namespace Indistinct

theorem alike (same : Indistinct view m n) : Alike view m n := by
  rw [Alike, ← guest_manifest, same.shown, guest_manifest]

theorem innerLoop (same : Indistinct view m n) : m.innerLoop = n.innerLoop :=
  congrArg (fun g => g.innerLoop) same.shown

theorem table (same : Indistinct view m n) :
    m.interrupts.table.marked m.innerLoop = n.interrupts.table.marked n.innerLoop :=
  congrArg (fun g => g.interrupts.table) same.shown

theorem flash (same : Indistinct view m n) : Flash.Same m.flash n.flash :=
  ⟨congrArg (fun g => g.flash) same.shown, same.left.2, same.right.2⟩

theorem map (same : Indistinct view m n) (change : Machine Outside → Machine Outside) :
    change (m.manifest view) = change (n.manifest view) :=
  congrArg change same.shown

theorem withWorld (same : Indistinct view m n) {world world' : World}
    (worlds : view world = view world') :
    Indistinct view { m with world } { n with world := world' } :=
  ⟨Eq.trans (same.map fun g => { g with world := view world })
    (congrArg (fun outside => { n.manifest view with world := outside }) worlds),
    same.left, same.right⟩

theorem withFlash (same : Indistinct view m n) {flash flash' : Flash}
    (flashes : Flash.Same flash flash') :
    Indistinct view { m with flash } { n with flash := flash' } :=
  ⟨Eq.trans (same.map fun g => { g with flash := flash.shown })
    (congrArg (fun shown => { n.manifest view with flash := shown }) flashes.shown),
    ⟨same.left.1, flashes.left⟩, ⟨same.right.1, flashes.right⟩⟩

theorem withTable (same : Indistinct view m n) {table table' : Table}
    (tables : table.marked m.innerLoop = table'.marked n.innerLoop) (sound : table.Sound)
    (sound' : table'.Sound) : Indistinct view (m.setTable table) (n.setTable table') :=
  ⟨Eq.trans (same.map fun g => g.setTable (table.marked m.innerLoop))
    (congrArg (n.manifest view).setTable tables), ⟨sound, same.left.2⟩, ⟨sound', same.right.2⟩⟩

theorem concur_vector (same : Indistinct view m n) {change : Table → Nat → Except Fault Table}
    (operation : VectorChange change) (vector : Nat) :
    Concur (fun table table' => Indistinct view (m.setTable table) (n.setTable table'))
      (change m.interrupts.table vector) (change n.interrupts.table vector) := by
  have tables := same.table
  have loops := same.innerLoop
  rw [loops] at tables
  refine (Table.concur_marked operation tables vector).known.mono
    fun table table' ⟨changed, changed', next⟩ => ?_
  exact same.withTable (loops ▸ next) (same.left.1.change (operation.change changed))
    (same.right.1.change (operation.change changed'))

/-- The next step looks at the table, marked or not. -/
theorem alert (same : Indistinct view m n) :
    Indistinct view { m with innerLoop := false } { n with innerLoop := false } :=
  ⟨same.map fun g => { g with
    innerLoop := false
    interrupts := { g.interrupts with table := { g.interrupts.table with stale := false } } },
    same.left, same.right⟩

end Indistinct

/-! ### The accord -/

end Machine

/-- What is recorded, and what is answered outside of memory, depends on what the view shows. -/
structure Environment.Overlooks {World Outside : Type} (env : Environment World)
    (view : World → Outside) : Prop where
  note : ∀ notice {world world'}, view world = view world' →
    view (env.note notice world) = view (env.note notice world')
  readOutside : ∀ handle segment address blank {world world'}, view world = view world' →
    (env.readOutside handle segment address blank world).1 =
        (env.readOutside handle segment address blank world').1 ∧
      view (env.readOutside handle segment address blank world).2 =
        view (env.readOutside handle segment address blank world').2
  writeOutside : ∀ handle segment address value {world world'}, view world = view world' →
    view (env.writeOutside handle segment address value world) =
      view (env.writeOutside handle segment address value world')

/-- Everyone who is called treats machines alike that cannot be told apart. -/
structure Environment.Impartial {World Outside : Type} (env : Environment World)
    (view : World → Outside) : Prop extends env.Overlooks view where
  notify : ∀ handle hook,
    Action.Mirrors (Machine.Indistinct view) (env.notify handle hook) (env.notify handle hook)
  readDevice : ∀ handle,
    Action.Mirrors (Machine.Indistinct view) (env.readDevice handle) (env.readDevice handle)
  writeDevice : ∀ handle value,
    Attempt.Mirrors (Machine.Indistinct view) (env.writeDevice handle value)
      (env.writeDevice handle value)
  readDeviceBit : ∀ handle bit,
    Action.Mirrors (Machine.Indistinct view) (env.readDeviceBit handle bit)
      (env.readDeviceBit handle bit)
  writeDeviceBit : ∀ handle bit value,
    Attempt.Mirrors (Machine.Indistinct view) (env.writeDeviceBit handle bit value)
      (env.writeDeviceBit handle bit value)

namespace Machine

variable {World Outside : Type} {env : Environment World} {view : World → Outside}
  (impartial : env.Impartial view)
include impartial

theorem accord_indistinct : Accord env (Indistinct view) Eq fun _ => True where
  akin same := same.alike.akin
  twin same instruments :=
    congrArg (fun g => instruments { g.unmarked with pause := .unsuccessful }) same.shown
  note notice same := same.withWorld (impartial.note notice same.alike.world)
  instruments hook _ twin := twin ▸ .forM (fun handle => impartial.notify handle hook) _
  add event delay same :=
    ⟨same.map fun g => g.setQueue (g.clock.queue.add event delay), same.left, same.right⟩
  timeout same :=
    ⟨same.map fun g => { g with halt := g.halt.or (some .timeout) }, same.left, same.right⟩
  vector same operation _ := same.concur_vector operation _
  load offset values same :=
    (same.flash.concur (.load offset values)).mono fun _ _ => same.withFlash
  settleIn id state same := ⟨same.map fun g => g.settleIn id state, same.left, same.right⟩
  addOwner id same := ⟨same.map fun g => g.addOwner id, same.left, same.right⟩
  dropOwner id same := ⟨same.map fun g => g.dropOwner id, same.left, same.right⟩

omit impartial in
theorem unconcerned_indistinct (view : World → Outside) : Unconcerned (Indistinct view) where
  queue queue same := ⟨same.map fun g => g.setQueue queue, same.left, same.right⟩
  spm change same := ⟨same.map fun g => g.modifySpm change, same.left, same.right⟩

theorem computing_indistinct : Computing env (Indistinct view) Eq fun _ => True where
  toQuietAccord := (accord_indistinct impartial).toQuietAccord
  device handle hook _ := impartial.notify handle hook
  readDevice := impartial.readDevice
  writeDevice := impartial.writeDevice
  readDeviceBit := impartial.readDeviceBit
  writeDeviceBit := impartial.writeDeviceBit
  readOutside handle segment address blank same := by
    obtain ⟨value, world⟩ := impartial.readOutside handle segment address blank same.alike.world
    exact ⟨value, same.withWorld world⟩
  writeOutside handle segment address value same :=
    same.withWorld (impartial.writeOutside handle segment address value same.alike.world)
  compute bytes status same _ := ⟨same.map fun g => g.compute bytes status, same.left, same.right⟩
  allow same :=
    ⟨same.map fun g => { g with
      status := { g.status with i := true }
      interrupts := { g.interrupts with table := { g.interrupts.table with stale := false } }
      innerLoop := false }, ⟨same.left.1.with_stale true, same.left.2⟩,
      ⟨same.right.1.with_stale true, same.right.2⟩⟩
  forbid same := ⟨same.map forbidden, same.left, same.right⟩

theorem background_indistinct : Background env (Indistinct view) Eq fun _ => True :=
  (computing_indistinct impartial).background (accord_indistinct impartial)
    (unconcerned_indistinct view) fun _ => trivial

theorem stepwise_indistinct : Stepwise env (Indistinct view) Eq fun _ => True where
  toAccesses := (computing_indistinct impartial).accesses (unconcerned_indistinct view)
    (fun _ => trivial) fun register value same =>
      ⟨same.map fun g => g.setIoStored register value, same.left, same.right⟩
  mirrors_advance := (background_indistinct impartial).mirrors_advance
  jump pc same := ⟨same.map fun g => { g with pc }, same.left, same.right⟩
  wake same := ⟨same.map awake, same.left, same.right⟩
  count same :=
    ⟨same.map fun g => { g with instructionsRun := g.instructionsRun + 1 }, same.left, same.right⟩
  breaking same :=
    ⟨same.map fun g => { g with state := .stopped, halt := some .break }, same.left, same.right⟩
  spend same := ⟨same.map fun g => { g with delayCycles := 0 }, same.left, same.right⟩
  look same := same.alert
  halt same := ⟨same.map fun g => { g with halt := none }, same.left, same.right⟩

/-- Every instruction goes the same way on both machines. -/
theorem handles_indistinct (i : Isa.Instr) : Handles env (Indistinct view) i := by
  apply (computing_indistinct impartial).handling
  · exact fun _ _ _ same =>
      ⟨same.map fun g => { g with justReturned := true }, same.left, same.right⟩
  · exact fun _ => (background_indistinct impartial).mirrors_storeProgram
  · intro _ _ _ same
    have slept := same.alert
    exact ⟨slept.map fun g => { g with sleeping := true, state := .sleeping }, slept.left,
      slept.right⟩

/-! ### Steps -/

omit impartial in
theorem mirrors_takeCheck :
    Attempt.Mirrors (Indistinct view) (answer takeCheck : Attempt World Bool) (answer takeCheck) := by
  refine .answer (fun m n same => ?_) fun m n same => ?_
  · have loops := same.innerLoop
    have marks : (m.innerLoop && m.interrupts.table.stale) =
        (n.innerLoop && n.interrupts.table.stale) := congrArg Table.stale same.table
    change (!m.innerLoop || m.interrupts.table.stale) = (!n.innerLoop || n.interrupts.table.stale)
    rw [loops] at marks ⊢
    cases looks : n.innerLoop with
    | false => rfl
    | true => rwa [looks] at marks
  · exact ⟨same.map fun g => { g with
      innerLoop := true
      interrupts := { g.interrupts with table := { g.interrupts.table with stale := false } } },
      ⟨same.left.1.with_stale false, same.left.2⟩, ⟨same.right.1.with_stale false, same.right.2⟩⟩

omit impartial in
theorem mirrors_fetch :
    Attempt.Mirrors (Indistinct view) (fetch : Attempt World Fetched) fetch := by
  refine .gettingAt fun m n same => ?_
  have here : m.flash.fetch m.pc = m.flash.fetch n.pc := by rw [same.alike.akin.pc]
  rw [here]
  have fetches := same.flash.fetch n.pc
  generalize m.flash.fetch n.pc = got at fetches
  generalize n.flash.fetch n.pc = got' at fetches
  cases fetches with
  | error fault => exact (Attempt.Mirrors.throw fault).agree m n same
  | ok both => exact ⟨congrArg Except.ok both.1, same.withFlash both.2⟩

theorem inStep_indistinct : InStep env (Indistinct view) where
  toStepwise := stepwise_indistinct impartial
  flagless _ _ status same := ⟨same.map fun g => { g with status }, same.left, same.right⟩
  handles := handles_indistinct impartial
  check := mirrors_takeCheck
  fetch := mirrors_fetch
  returned justReturned same := by
    have alert := same.alert
    exact ⟨alert.map fun g => { g with justReturned }, alert.left, alert.right⟩
  stopping same :=
    ⟨same.map fun g => { g with state := .stopped, halt := some .stop }, same.left, same.right⟩

end Machine

end Avr

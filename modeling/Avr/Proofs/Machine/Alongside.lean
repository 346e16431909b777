import Avr.Proofs.Machine.Errand

/-!
Contract: machines that differ in their instruments only stay so under everything a program does.

Owns:
- flash, interrupt tables, registers and state machines without their instruments, under the
  operations of the machine;
- machines alongside each other, as an accord that withstands a whole step;
- what an instrument cannot be seen to have done.

What flash remembers has to be right on both sides, since one may remember what the other decodes.
-/

namespace Avr

open Avr.Io Avr.Memory

/-! ### Parts of a machine without their instruments -/

namespace Flash

variable {f g : Flash}

theorem bare_eq (segments : f.segment.bare = g.segment.bare)
    (slots : f.slots.size = g.slots.size) : f.bare = g.bare := by
  rw [bare, bare, segments, slots]

theorem size_slots_of_bare (same : f.bare = g.bare) : f.slots.size = g.slots.size := by
  have sizes := congrArg (fun bare : Flash => bare.slots.size) same
  simpa only [bare, Array.size_replicate] using sizes

theorem segment_of_bare (same : f.bare = g.bare) : f.segment.bare = g.segment.bare :=
  congrArg Flash.segment same

theorem decodeAt_of_bare (same : f.bare = g.bare) (index : Nat) :
    f.decodeAt index = g.decodeAt index := by
  have whole : f.bare.decodeAt index = g.bare.decodeAt index := by rw [same]
  exact whole

theorem wordIndex_of_bare (same : f.bare = g.bare) (address : Nat) :
    f.wordIndex address = g.wordIndex address := by
  rw [wordIndex, wordIndex, size_slots_of_bare same]

theorem bare_apply (f : Flash) {operation : Operation} (readOnly : operation.writes = false) :
    (f.apply operation).bare = f.bare :=
  bare_eq (by rw [segment_apply f readOnly]) (size_slots_apply f operation)

theorem concur_set (same : f.bare = g.bare) (address : Nat) (value : UInt8) :
    Concur (fun next next' => next.bare = next'.bare) (f.set address value)
      (g.set address value) := by
  refine (Segment.concur_set (segment_of_bare same) address value).map fun _ _ written => ?_
  obtain ⟨bytes, rfl, rfl⟩ := written
  refine bare_eq ?_ (by simpa using size_slots_of_bare same)
  rw [segment_invalidate, segment_invalidate]
  exact congrArg (fun bare : Segment => { bare with bytes }) (segment_of_bare same)

theorem concur_load (same : f.bare = g.bare) (offset : Nat) (values : List UInt8) :
    Concur (fun next next' => next.bare = next'.bare) (f.load offset values)
      (g.load offset values) := by
  refine (Segment.concur_load (segment_of_bare same) offset values).map fun _ _ written => ?_
  obtain ⟨bytes, rfl, rfl⟩ := written
  refine bare_eq ?_ (by simpa using size_slots_of_bare same)
  rw [segment_invalidateFrom, segment_invalidateFrom]
  exact congrArg (fun bare : Segment => { bare with bytes }) (segment_of_bare same)

end Flash

namespace Interrupt.Table

/-- The table without its mark. -/
def unmarked (t : Table) : Table :=
  { t with stale := false }

theorem concur_of_vectorChange {t t' : Table} {change : Table → Nat → Except Fault Table}
    (operation : Machine.VectorChange change) (same : t.unmarked = t'.unmarked) (vector : Nat) :
    Concur (fun next next' => next.unmarked = next'.unmarked) (change t vector)
      (change t' vector) := by
  obtain ⟨size, posted, enabled, pending, stale⟩ := t
  obtain ⟨size', posted', enabled', pending', stale'⟩ := t'
  simp only [unmarked, mk.injEq] at same
  obtain ⟨rfl, rfl, rfl, rfl, -⟩ := same
  cases operation with
  | _ =>
    simp only [post, unpost, enable, disable, check]
    split
    · exact .ok rfl
    · exact .error _

end Interrupt.Table

namespace Machine

open Automaton

variable {World Outside : Type} {env : Environment World} {view : World → Outside}
  {m n : Machine World}

/-- To change an entry of an array and to look at all of them in another way commute. -/
theorem map_modify {α β : Type} {look : α → β} {change : α → α} {change' : β → β}
    (commutes : ∀ entry, look (change entry) = change' (look entry)) (entries : Array α)
    (index : Nat) :
    (entries.modify index change).map look = (entries.map look).modify index change' := by
  apply Array.ext
  · simp
  · intro other _ _
    simp only [Array.getElem_map, Array.getElem_modify]
    split
    · exact commutes _
    · rfl

theorem Alike.map (alike : Alike view m n) (change : Machine Outside → Machine Outside) :
    change (m.guest view) = change (n.guest view) :=
  congrArg change alike

theorem Alike.withWorld (alike : Alike view m n) {world world' : World}
    (same : view world = view world') : Alike view { m with world } { n with world := world' } :=
  Eq.trans (alike.map fun g => { g with world := view world })
    (congrArg (fun outside => { n.guest view with world := outside }) same)

theorem Alike.withTable (alike : Alike view m n) {table table' : Interrupt.Table}
    (same : table.unmarked = table'.unmarked) :
    Alike view (m.setTable table) (n.setTable table') :=
  Eq.trans (alike.map fun g => g.setTable table.unmarked)
    (congrArg (n.guest view).setTable same)

theorem Alike.withFlash (alike : Alike view m n) {flash flash' : Flash}
    (same : flash.bare = flash'.bare) : Alike view { m with flash } { n with flash := flash' } :=
  Eq.trans (alike.map fun g => { g with flash := flash.bare })
    (congrArg (fun bare => { n.guest view with flash := bare }) same)

theorem Alike.setIoStored (alike : Alike view m n) (register : Nat) (value : UInt8) :
    Alike view (m.setIoStored register value) (n.setIoStored register value) := by
  have stripped (m : Machine World) : (m.setIoStored register value).guest view =
      { m.guest view with
        io := (m.guest view).io.modify register (Register.store · value) } := by
    have commutes : ∀ r : Register, Register.stripped (Register.store r value) =
        Register.store (Register.stripped r) value := by
      rintro (kind | kind) <;> rfl
    have both : (m.io.modify register (Register.store · value)).map Register.stripped =
        (m.io.map Register.stripped).modify register (Register.store · value) :=
      map_modify commutes _ _
    simp only [guest, Machine.setIoStored, both]
  rw [Alike, stripped, stripped, alike]

theorem Alike.modifyStateMachine (alike : Alike view m n) (id : Nat)
    {change : StateMachine → StateMachine}
    (commutes : ∀ automaton, (change automaton).bare = change automaton.bare) :
    Alike view (m.modifyStateMachine id change) (n.modifyStateMachine id change) := by
  have bare (m : Machine World) : (m.modifyStateMachine id change).guest view =
      { m.guest view with
        stateMachines := (m.guest view).stateMachines.modify id change } := by
    simp only [guest, Machine.modifyStateMachine, map_modify commutes]
  rw [Alike, bare, bare, alike]

/-- Machines that are alike, and whose flashes remember what is right. -/
structure Alongside (view : World → Outside) (m n : Machine World) : Prop where
  alike : Alike view m n
  left : m.flash.Coherent
  right : n.flash.Coherent

/-- What an instrument leaves instead of the machine. -/
structure Unseen (view : World → Outside) (m next : Machine World) : Prop where
  alike : Alike view m next
  flash : m.flash.Coherent → next.flash.Coherent

instance (view : World → Outside) : IsPreorder (Machine World) (Unseen view) where
  refl m := ⟨.refl view m, id⟩
  trans _ _ _ first second := ⟨first.alike.trans second.alike, second.flash ∘ first.flash⟩

theorem Alongside.unseen (same : Alongside view m n) {m' n' : Machine World}
    (left : Unseen view m m') (right : Unseen view n n') : Alongside view m' n' :=
  ⟨left.alike.symm.trans (same.alike.trans right.alike), left.flash same.left,
    right.flash same.right⟩

theorem unseen_note (discreet : env.Discreet view) (notice : Notice) (m : Machine World) :
    Unseen view m { m with world := env.note notice m.world } := by
  refine ⟨?_, id⟩
  rw [Alike, guest, guest, discreet.note]

theorem unseen_notifyAll (discreet : env.Discreet view) {hook : Hook}
    (instrument : hook.isInstrument = true) (handles : HandleList) :
    Action.Respects (Unseen view) (notifyAll env handles hook) :=
  .forM (fun handle => ⟨fun m => ⟨discreet.instrument handle hook instrument m,
    ((discreet.tame handle hook instrument).related m).coherent⟩⟩) handles

/-! ### The accord -/

theorem Alongside.load (same : Alongside view m n) (offset : Nat) (values : List UInt8) :
    Concur (fun flash flash' => Alongside view { m with flash } { n with flash := flash' })
      (m.flash.load offset values) (n.flash.load offset values) :=
  (Flash.concur_load same.alike.flash offset values).known.mono fun _ _ ⟨wrote, wrote', next⟩ =>
    ⟨same.alike.withFlash next, same.left.of_load wrote, same.right.of_load wrote'⟩

theorem accord_alongside (discreet : env.Discreet view) :
    Accord env (Alongside view) (fun _ _ => True) fun _ => True where
  akin same := same.alike.akin
  twin _ _ := trivial
  note notice same := same.unseen (unseen_note discreet notice _) (unseen_note discreet notice _)
  instruments hook instrument _ := ⟨fun _ _ same => ⟨rfl, same.unseen
    ((unseen_notifyAll discreet instrument _).related _)
    ((unseen_notifyAll discreet instrument _).related _)⟩⟩
  add event delay same :=
    ⟨same.alike.map fun g => g.setQueue (g.clock.queue.add event delay), same.left, same.right⟩
  timeout same :=
    ⟨same.alike.map fun g => { g with halt := g.halt.or (some .timeout) }, same.left, same.right⟩
  vector same operation _ := by
    have tables := congrArg (fun g => g.interrupts.table) same.alike
    exact (Interrupt.Table.concur_of_vectorChange operation tables _).mono fun _ _ next =>
      ⟨same.alike.withTable next, same.left, same.right⟩
  load offset values same := same.load offset values
  settleIn id state same :=
    ⟨same.alike.modifyStateMachine id fun _ => rfl, same.left, same.right⟩
  addOwner id same := ⟨same.alike.modifyStateMachine id fun _ => rfl, same.left, same.right⟩
  dropOwner id same := ⟨same.alike.modifyStateMachine id fun _ => rfl, same.left, same.right⟩

theorem unconcerned_alongside (view : World → Outside) : Unconcerned (Alongside view) where
  queue queue same := ⟨same.alike.map fun g => g.setQueue queue, same.left, same.right⟩
  spm change same := ⟨same.alike.map fun g => g.modifySpm change, same.left, same.right⟩

theorem serving_alongside (view : World → Outside) :
    Serving view (Alongside view) fun _ _ => True where
  accord := accord_alongside
  unconcerned := unconcerned_alongside view
  seen same := same.alike
  remember same blind :=
    ⟨same.alike.withWorld (blind _ _ same.alike.world), same.left, same.right⟩
  bytes bytes same :=
    ⟨same.alike.map fun g => { g with data := { g.data with bytes } }, same.left, same.right⟩
  load offset values same := same.load offset values
  set address value same :=
    (Flash.concur_set same.alike.flash address value).known.mono fun _ _ ⟨wrote, wrote', next⟩ =>
      ⟨same.alike.withFlash next, same.left.of_set wrote, same.right.of_set wrote'⟩

theorem computing_alongside (transparent : env.Transparent view) :
    Computing env (Alongside view) (fun _ _ => True) fun _ => True where
  toQuietAccord := (accord_alongside transparent.discreet).toQuietAccord
  device handle hook device :=
    (serving_alongside view).mirrors_errand (transparent.device handle hook device)
  readDevice handle := (serving_alongside view).mirrors_errand (transparent.readDevice handle)
  writeDevice handle value :=
    ⟨(serving_alongside view).mirrors_errand (transparent.writeDevice handle value)⟩
  readDeviceBit handle bit :=
    (serving_alongside view).mirrors_errand (transparent.readDeviceBit handle bit)
  writeDeviceBit handle bit value :=
    ⟨(serving_alongside view).mirrors_errand (transparent.writeDeviceBit handle bit value)⟩
  readOutside handle segment address blank same := by
    obtain ⟨value, world⟩ := transparent.readOutside handle segment address blank same.alike.world
    exact ⟨value, same.alike.withWorld world, same.left, same.right⟩
  writeOutside handle segment address value same :=
    ⟨same.alike.withWorld (transparent.writeOutside handle segment address value same.alike.world),
      same.left, same.right⟩
  compute bytes status same _ :=
    ⟨same.alike.map fun g => g.compute bytes status, same.left, same.right⟩
  allow same :=
    ⟨same.alike.map fun g => { g with status := { g.status with i := true } }, same.left, same.right⟩
  forbid same := ⟨same.alike.map forbidden, same.left, same.right⟩

theorem background_alongside (transparent : env.Transparent view) :
    Background env (Alongside view) (fun _ _ => True) fun _ => True :=
  (computing_alongside transparent).background (accord_alongside transparent.discreet)
    (unconcerned_alongside view) fun _ => trivial

theorem stepwise_alongside (transparent : env.Transparent view) :
    Stepwise env (Alongside view) (fun _ _ => True) fun _ => True where
  toAccesses := (computing_alongside transparent).accesses (unconcerned_alongside view)
    (fun _ => trivial) fun _ _ same => ⟨same.alike.setIoStored _ _, same.left, same.right⟩
  mirrors_advance := (background_alongside transparent).mirrors_advance
  jump pc same := ⟨same.alike.map fun g => { g with pc }, same.left, same.right⟩
  wake same := ⟨same.alike.map awake, same.left, same.right⟩
  count same :=
    ⟨same.alike.map fun g => { g with instructionsRun := g.instructionsRun + 1 }, same.left,
      same.right⟩
  breaking same :=
    ⟨same.alike.map fun g => { g with state := .stopped, halt := some .break }, same.left, same.right⟩
  spend same := ⟨same.alike.map fun g => { g with delayCycles := 0 }, same.left, same.right⟩
  look same := ⟨same.alike, same.left, same.right⟩
  halt same := ⟨same.alike.map fun g => { g with halt := none }, same.left, same.right⟩

/-- Every instruction goes the same way on both machines. -/
theorem handles_alongside (transparent : env.Transparent view) (i : Isa.Instr) :
    Handles env (Alongside view) i :=
  (computing_alongside transparent).handling
    (fun _ _ _ same =>
      ⟨same.alike.map fun g => { g with justReturned := true }, same.left, same.right⟩)
    (fun _ => (background_alongside transparent).mirrors_storeProgram)
    fun _ _ _ same => ⟨same.alike.map asleep, same.left, same.right⟩

end Machine

end Avr

import Avr.Proofs.Machine.Step

/-!
Contract: what devices may do without the instruments of a machine making a difference.

Owns:
- writes of the same bytes to two segments that differ in their watches;
- the errands of devices, made of the operations that reach vectors, events, memory and the devices'
  own state;
- errands as mirrors of themselves, and as tame;
- environments in which instruments are discreet and devices run errands.

An errand may look at everything that alike machines have in common, so it goes the same way on both.
-/

namespace Avr

open Avr.Time

/-! ### Writes of segments -/

namespace Memory.Segment

/-- The segments have the same new bytes, and are otherwise as they were. -/
def Written (s s' next next' : Segment) : Prop :=
  ∃ bytes, next = { s with bytes } ∧ next' = { s' with bytes }

variable {s s' : Segment}

theorem concur_set (same : s.bare = s'.bare) (address : Nat) (value : UInt8) :
    Concur (Written s s') (s.set address value) (s'.set address value) := by
  have bytes : s.bytes = s'.bytes := congrArg (fun bare => bare.bytes) same
  have names : s.name = s'.name := congrArg (fun bare => bare.name) same
  simp only [set, outside, bytes, names]
  split
  · exact .ok ⟨_, by rw [names], rfl⟩
  · exact .error _

theorem concur_load (same : s.bare = s'.bare) (offset : Nat) (values : List UInt8) :
    Concur (Written s s') (s.load offset values) (s'.load offset values) := by
  have bytes : s.bytes = s'.bytes := congrArg (fun bare => bare.bytes) same
  have names : s.name = s'.name := congrArg (fun bare => bare.name) same
  simp only [load, outside, bytes, names]
  split
  · exact .ok ⟨_, by rw [names], rfl⟩
  · exact .error _

end Memory.Segment

/-! ### Errands -/

namespace Machine

variable {World Outside : Type}

/-- The machine with some bytes of its data space written. -/
def storeData (offset : Nat) (values : List UInt8) : Attempt World Unit :=
  attempt fun m => return { m with data := ← m.data.load offset values }

/-- The machine with one byte of its data space written. -/
def storeDatum (address : Nat) (value : UInt8) : Attempt World Unit :=
  attempt fun m => return { m with data := ← m.data.set address value }

/-- The machine with some bytes of its flash written. -/
def storeFlash (offset : Nat) (values : List UInt8) : Attempt World Unit :=
  attempt fun m => return { m with flash := ← m.flash.load offset values }

/-- The machine with one byte of its flash written. -/
def storeFlashByte (address : Nat) (value : UInt8) : Attempt World Unit :=
  attempt fun m => return { m with flash := ← m.flash.set address value }

end Machine

/-- Instruments leave a machine that is alike, by operations that neither step the machine nor
replace its interrupt table. What is recorded of notices is not seen through the view. -/
structure Environment.Discreet {World Outside : Type} (env : Environment World)
    (view : World → Outside) : Prop where
  note : ∀ notice world, view (env.note notice world) = view world
  instrument : ∀ handle hook, hook.isInstrument = true → ∀ m,
    Machine.Alike view m (env.notify handle hook m).2
  tame : ∀ handle hook, hook.isInstrument = true → (env.notify handle hook).Tame

namespace Machine

variable {World Outside : Type}

/-- What a device does to a machine when it is called. Its operations call the instruments of the
machine in turn, as an environment of their own answers them. -/
inductive Errand (view : World → Outside) : {α : Type} → Action World α → Prop where
  | done {α : Type} (value : α) : Errand view (pure value)
  | andThen {α β : Type} {act : Action World α} {next : α → Action World β}
      (first : Errand view act) (rest : ∀ value, Errand view (next value)) :
      Errand view (act >>= next)
  /-- Look at something that alike machines have in common. -/
  | look {α : Type} (observe : Machine World → α)
      (blind : ∀ m n, Alike view m n → observe m = observe n) :
      Errand view (do return observe (← get))
  /-- Change the device's own state. -/
  | remember (change : World → World)
      (blind : ∀ world world', view world = view world' →
        view (change world) = view (change world')) :
      Errand view (modify fun m => { m with world := change m.world })
  | post {env : Environment World} (discreet : env.Discreet view) (vector : Nat) (posted : Bool) :
      Errand view (setPosted env vector posted).run
  | enable {env : Environment World} (discreet : env.Discreet view) (vector : Nat)
      (enabled : Bool) : Errand view (setEnabled env vector enabled).run
  | timeout {env : Environment World} (discreet : env.Discreet view) :
      Errand view (Machine.timeout env)
  | schedule {env : Environment World} (discreet : env.Discreet view) (event : Event)
      (delay : Nat) : Errand view (Machine.schedule env event delay)
  | unschedule {env : Environment World} (discreet : env.Discreet view) (event : Event) :
      Errand view (Machine.unschedule env event)
  | storeData (offset : Nat) (values : List UInt8) :
      Errand view (Machine.storeData offset values).run
  | storeDatum (address : Nat) (value : UInt8) : Errand view (Machine.storeDatum address value).run
  | storeFlash (offset : Nat) (values : List UInt8) :
      Errand view (Machine.storeFlash offset values).run
  | storeFlashByte (address : Nat) (value : UInt8) :
      Errand view (Machine.storeFlashByte address value).run

/-- Two machines that errands keep in accord, however the operations of an errand call their
instruments. -/
structure Serving (view : World → Outside) (A : Machine World → Machine World → Prop)
    (Twin : HandleList → HandleList → Prop) : Prop where
  accord : ∀ {env : Environment World}, env.Discreet view → Accord env A Twin fun _ => True
  unconcerned : Unconcerned A
  seen : ∀ {m n}, A m n → Alike view m n
  remember : ∀ {m n} {change : World → World}, A m n →
    (∀ world world', view world = view world' → view (change world) = view (change world')) →
    A { m with world := change m.world } { n with world := change n.world }
  bytes : ∀ {m n} bytes, A m n →
    A { m with data := { m.data with bytes } } { n with data := { n.data with bytes } }
  load : ∀ {m n} offset values, A m n →
    Concur (fun flash flash' => A { m with flash } { n with flash := flash' })
      (m.flash.load offset values) (n.flash.load offset values)
  set : ∀ {m n} address value, A m n →
    Concur (fun flash flash' => A { m with flash } { n with flash := flash' })
      (m.flash.set address value) (n.flash.set address value)

namespace Serving

variable {view : World → Outside} {A : Machine World → Machine World → Prop}
  {Twin : HandleList → HandleList → Prop} (serving : Serving view A Twin)
include serving

theorem written {m n : Machine World} (same : A m n) {next next' : Memory.Segment}
    (written : Memory.Segment.Written m.data n.data next next') :
    A { m with data := next } { n with data := next' } := by
  obtain ⟨bytes, rfl, rfl⟩ := written
  exact serving.bytes bytes same

theorem mirrors_storeData (offset : Nat) (values : List UInt8) :
    Attempt.Mirrors A (storeData offset values) (storeData offset values) :=
  .attempt fun _ _ same =>
    (Memory.Segment.concur_load (serving.seen same).akin.data offset values).map fun _ _ =>
      serving.written same

theorem mirrors_storeDatum (address : Nat) (value : UInt8) :
    Attempt.Mirrors A (storeDatum address value) (storeDatum address value) :=
  .attempt fun _ _ same =>
    (Memory.Segment.concur_set (serving.seen same).akin.data address value).map fun _ _ =>
      serving.written same

theorem mirrors_storeFlash (offset : Nat) (values : List UInt8) :
    Attempt.Mirrors A (storeFlash offset values) (storeFlash offset values) :=
  .attempt fun _ _ same => (serving.load offset values same).map fun _ _ holds => holds

theorem mirrors_storeFlashByte (address : Nat) (value : UInt8) :
    Attempt.Mirrors A (storeFlashByte address value) (storeFlashByte address value) :=
  .attempt fun _ _ same => (serving.set address value same).map fun _ _ holds => holds

/-- An errand does the same on both machines. -/
theorem mirrors_errand {α : Type} {act : Action World α} (errand : Errand view act) :
    Action.Mirrors A act act := by
  induction errand with
  | done value => exact .pure value
  | andThen _ _ first rest => exact .bind first rest
  | look observe blind =>
      refine .getting fun m n same => ?_
      rw [blind m n (serving.seen same)]
      exact .pure _
  | remember change blind => exact .modify fun _ _ same => serving.remember same blind
  | post discreet vector posted =>
      exact ((serving.accord discreet).mirrors_setPosted posted trivial).run
  | enable discreet vector enabled =>
      exact ((serving.accord discreet).mirrors_setEnabled enabled trivial).run
  | timeout discreet => exact (serving.accord discreet).mirrors_timeout
  | schedule discreet event delay => exact (serving.accord discreet).mirrors_schedule event delay
  | unschedule discreet event =>
      exact (serving.accord discreet).mirrors_unschedule serving.unconcerned.queue event
  | storeData offset values => exact (serving.mirrors_storeData offset values).run
  | storeDatum address value => exact (serving.mirrors_storeDatum address value).run
  | storeFlash offset values => exact (serving.mirrors_storeFlash offset values).run
  | storeFlashByte address value => exact (serving.mirrors_storeFlashByte address value).run

end Serving

theorem serving_reaches (view : World → Outside) (start : Machine World) :
    Serving view (Itself (Reaches start)) Eq where
  accord discreet :=
    (invariant_of_change (fun _ _ change reaches => reaches.tail change) discreet.tame).accord
  unconcerned := unconcerned_of_change fun _ _ change reaches => reaches.tail change
  seen := fun ⟨same, _⟩ => same ▸ .refl view _
  remember := fun ⟨same, reaches⟩ _ => ⟨same ▸ rfl, reaches.tail (.edit rfl rfl rfl rfl rfl)⟩
  bytes _ := fun ⟨same, reaches⟩ => ⟨same ▸ rfl, reaches.tail (.edit rfl rfl rfl rfl rfl)⟩
  load _ _ := fun ⟨same, reaches⟩ => same ▸ concur_itself fun _ wrote =>
    ⟨rfl, reaches.tail (.program fun coherent => coherent.of_load wrote)⟩
  set _ _ := fun ⟨same, reaches⟩ => same ▸ concur_itself fun _ wrote =>
    ⟨rfl, reaches.tail (.program fun coherent => coherent.of_set wrote)⟩

theorem Errand.tame {view : World → Outside} {α : Type} {act : Action World α}
    (errand : Errand view act) : act.Tame :=
  .of_mirrors fun start => (serving_reaches view start).mirrors_errand errand

end Machine

/-- Instruments are discreet, and devices run errands. -/
structure Environment.Transparent {World Outside : Type} (env : Environment World)
    (view : World → Outside) : Prop where
  discreet : env.Discreet view
  readOutside : ∀ handle segment address blank {world world'}, view world = view world' →
    (env.readOutside handle segment address blank world).1 =
        (env.readOutside handle segment address blank world').1 ∧
      view (env.readOutside handle segment address blank world).2 =
        view (env.readOutside handle segment address blank world').2
  writeOutside : ∀ handle segment address value {world world'}, view world = view world' →
    view (env.writeOutside handle segment address value world) =
      view (env.writeOutside handle segment address value world')
  device : ∀ handle hook, hook.isInstrument = false →
    Machine.Errand view (env.notify handle hook)
  readDevice : ∀ handle, Machine.Errand view (env.readDevice handle)
  writeDevice : ∀ handle value, Machine.Errand view (env.writeDevice handle value).run
  readDeviceBit : ∀ handle bit, Machine.Errand view (env.readDeviceBit handle bit)
  writeDeviceBit : ∀ handle bit value,
    Machine.Errand view (env.writeDeviceBit handle bit value).run

theorem Environment.Transparent.tame {World Outside : Type} {env : Environment World}
    {view : World → Outside} (transparent : env.Transparent view) : env.Tame where
  notify handle hook := by
    cases instrument : hook.isInstrument with
    | true => exact transparent.discreet.tame handle hook instrument
    | false => exact (transparent.device handle hook instrument).tame
  readDevice handle := (transparent.readDevice handle).tame
  writeDevice handle value := ⟨(transparent.writeDevice handle value).tame⟩
  readDeviceBit handle bit := (transparent.readDeviceBit handle bit).tame
  writeDeviceBit handle bit value := ⟨(transparent.writeDeviceBit handle bit value).tame⟩

end Avr

import Avr.Proofs.Clock.Granted
import Avr.Proofs.Machine.Work

/-!
Contract: what leaves a queued event and a pause that was asked for alone.

Owns:
- the relation between machines of which nothing resets, advances or cancels, and the stronger one
  of which no other timeout is called or scheduled either;
- properties that outlast them, as invariants of all that a program does but to let time pass;
- what such properties have to say about sleep and about time, to outlast the work of a step.

An advance is not related to the machine before it: it is what the queued event waits for.
-/

namespace Avr.Machine

open Avr.Isa Avr.Time

variable {World : Type} {env : Environment World} {P : Machine World → Prop} {entry : Entry Event}
  {m next : Machine World}

/-- A stop or `BREAK` asks for the pause at the end of the step. -/
def Halted (m : Machine World) : Prop :=
  m.halt = some .stop ∨ m.halt = some .break

theorem not_halted_of_none (quiet : m.halt = none) : ¬ m.Halted := by
  rw [Halted, quiet]
  decide

theorem not_halted_of_timeout (asked : m.halt = some .timeout) : ¬ m.Halted := by
  rw [Halted, asked]
  decide

theorem halted_or_timeout {halt : Option Halt} :
    (halt.or (some .timeout) = some .stop ∨ halt.or (some .timeout) = some .break) ↔
      (halt = some .stop ∨ halt = some .break) := by
  cases halt with
  | none => simp
  | some halt => simp

/-- No time passed, the event is still queued, and a pause that was asked for still is. A machine is
stopped together with a request for it. -/
structure Punctual (entry : Entry Event) (m next : Machine World) : Prop where
  count : next.clock.queue.count = m.clock.queue.count
  budget : next.clock.queue.budget = m.clock.queue.budget
  tidy : DeltaQueue.Tidy m.clock.queue.links → DeltaQueue.Tidy next.clock.queue.links
  kept : DeltaQueue.Tidy m.clock.queue.links → entry ∈ m.clock.queue.agenda.entries →
    entry ∈ next.clock.queue.agenda.entries
  asked : m.halt.isSome → next.halt.isSome
  stops : (m.state = .stopped → m.Halted) → next.state = .stopped → next.Halted
  halts : (m.Halted → m.state = .stopped) → next.Halted → next.state = .stopped

instance : IsPreorder (Machine World) (Punctual entry) where
  refl _ := ⟨rfl, rfl, id, fun _ => id, id, id, id⟩
  trans _ _ _ first rest :=
    { count := rest.count.trans first.count
      budget := rest.budget.trans first.budget
      tidy := rest.tidy ∘ first.tidy
      kept := fun tidy => rest.kept (first.tidy tidy) ∘ first.kept tidy
      asked := rest.asked ∘ first.asked
      stops := rest.stops ∘ first.stops
      halts := rest.halts ∘ first.halts }

namespace Punctual

theorem of_same (queue : next.clock.queue = m.clock.queue) (halt : next.halt = m.halt)
    (state : next.state = m.state) : Punctual entry m next := by
  have halted : next.Halted ↔ m.Halted := by rw [Halted, Halted, halt]
  exact
    { count := congrArg DeltaQueue.count queue
      budget := congrArg DeltaQueue.budget queue
      tidy := fun tidy => queue ▸ tidy
      kept := fun _ member => queue ▸ member
      asked := fun asked => halt ▸ asked
      stops := fun stops stopped => halted.mpr (stops (state ▸ stopped))
      halts := fun halts asked => state.trans (halts (halted.mp asked)) }

/-- Changes of the queue alone. -/
theorem of_queue {queue : DeltaQueue Event} (count : queue.count = m.clock.queue.count)
    (budget : queue.budget = m.clock.queue.budget)
    (tidy : DeltaQueue.Tidy m.clock.queue.links → DeltaQueue.Tidy queue.links)
    (kept : DeltaQueue.Tidy m.clock.queue.links → entry ∈ m.clock.queue.agenda.entries →
      entry ∈ queue.agenda.entries) : Punctual entry m (m.setQueue queue) :=
  ⟨count, budget, tidy, kept, id, id, id⟩

theorem add (event : Event) (delay : Nat) :
    Punctual entry m (m.setQueue (m.clock.queue.add event delay)) := by
  refine of_queue rfl rfl (DeltaQueue.tidy_insert event delay) fun tidy member => ?_
  rw [DeltaQueue.agenda_add tidy]
  exact (Agenda.entries_add_perm _ event delay).mem_iff.mpr (List.mem_cons_of_mem _ member)

theorem remove {matching : Event → Bool} (other : matching entry.event = false) :
    Punctual entry m (m.setQueue (m.clock.queue.removeMatching matching)) := by
  refine of_queue rfl rfl (DeltaQueue.tidy_sweep matching 0) fun _ member => ?_
  rw [DeltaQueue.agenda_removeMatching]
  exact List.mem_filter.mpr ⟨member, by rw [other]; rfl⟩

theorem timeout : Punctual entry m { m with halt := m.halt.or (some .timeout) } where
  count := rfl
  budget := rfl
  tidy := id
  kept _ := id
  asked _ := by simp
  stops stops stopped := halted_or_timeout.mpr (stops stopped)
  halts halts halted := halts (halted_or_timeout.mp halted)

theorem breaking :
    Punctual entry m { m with state := .stopped, halt := some .break } where
  count := rfl
  budget := rfl
  tidy := id
  kept _ := id
  asked _ := rfl
  stops _ _ := .inr rfl
  halts _ _ := rfl

theorem woken : Punctual entry m m.awake := by
  have state : m.awake.state = .stopped ↔ m.state = .stopped := by
    change (if m.state = .sleeping then RunState.running else m.state) = .stopped ↔ _
    cases m.state <;> decide
  exact
    { count := rfl
      budget := rfl
      tidy := id
      kept := fun _ => id
      asked := id
      stops := fun stops stopped => stops (state.mp stopped)
      halts := fun halts halted => state.mpr (halts halted) }

theorem timeless (punctual : Punctual entry m next) : Timeless m next :=
  congrArg₂ (· + ·) punctual.count punctual.budget

end Punctual

/-- Nor did a timeout ask for a pause, and no other one was queued. -/
structure Muted (entry : Entry Event) (m next : Machine World) : Prop
    extends Punctual entry m next where
  mute : next.halt = some .timeout → m.halt = some .timeout
  rivals : DeltaQueue.Tidy m.clock.queue.links → ∀ other ∈ next.clock.queue.agenda.entries,
    other.event.pauses = true → other ∈ m.clock.queue.agenda.entries

namespace Muted

theorem of_same (queue : next.clock.queue = m.clock.queue) (halt : next.halt = m.halt)
    (state : next.state = m.state) : Muted entry m next where
  toPunctual := .of_same queue halt state
  mute asked := halt ▸ asked
  rivals _ _ member _ := queue ▸ member

theorem enqueue {event : Event} (calm : event.pauses = false) (delay : Nat) :
    Muted entry m (m.setQueue (m.clock.queue.add event delay)) where
  toPunctual := .add event delay
  mute := id
  rivals tidy other member pauses := by
    rw [Machine.setQueue, DeltaQueue.agenda_add tidy] at member
    rcases List.mem_cons.mp ((Agenda.entries_add_perm _ event delay).mem_iff.mp member) with
      rfl | before
    · exact absurd (calm.symm.trans pauses) Bool.false_ne_true
    · exact before

theorem remove {matching : Event → Bool} (other : matching entry.event = false) :
    Muted entry m (m.setQueue (m.clock.queue.removeMatching matching)) where
  toPunctual := .remove other
  mute := id
  rivals _ other member _ := by
    rw [Machine.setQueue, DeltaQueue.agenda_removeMatching] at member
    exact List.mem_of_mem_filter member

theorem breaking : Muted entry m { m with state := .stopped, halt := some .break } where
  toPunctual := .breaking
  mute := nofun
  rivals _ _ member _ := member

theorem woken : Muted entry m m.awake where
  toPunctual := .woken
  mute := id
  rivals _ _ member _ := member

end Muted

/-! ### Properties that outlast everything else -/

/-- A property that outlasts whatever leaves the event, the pause and timeouts alone, as all that
the environment calls does. -/
structure Abiding (env : Environment World) (entry : Entry Event) (P : Machine World → Prop) :
    Prop where
  muted : ∀ m next, Muted entry m next → P m → P next
  upholds : env.Upholds P
  other : entry.event ≠ .spmReset

namespace Abiding

variable (abiding : Abiding env entry P)
include abiding

/-- Changes of everything else. -/
theorem edit (holds : P m) (queue : next.clock.queue = m.clock.queue) (halt : next.halt = m.halt)
    (state : next.state = m.state) : P next :=
  abiding.muted m next (.of_same queue halt state) holds

theorem programInvariant : QuietProgramInvariant env P fun _ => True where
  note _ holds := abiding.edit holds rfl rfl rfl
  instrument handle hook _ := abiding.upholds.notify handle hook
  enqueue _ _ calm holds := abiding.muted _ _ (.enqueue calm _) holds
  vector holds _ _ _ := abiding.edit holds rfl rfl rfl
  load holds _ := abiding.edit holds rfl rfl rfl
  settleIn _ _ holds := abiding.edit holds rfl rfl rfl
  addOwner _ holds := abiding.edit holds rfl rfl rfl
  dropOwner _ holds := abiding.edit holds rfl rfl rfl
  device handle hook _ := abiding.upholds.notify handle hook
  readDevice := abiding.upholds.readDevice
  writeDevice := abiding.upholds.writeDevice
  readDeviceBit := abiding.upholds.readDeviceBit
  writeDeviceBit := abiding.upholds.writeDeviceBit
  readOutside _ _ _ _ holds := abiding.edit holds rfl rfl rfl
  writeOutside _ _ _ _ holds := abiding.edit holds rfl rfl rfl
  compute _ _ holds _ := abiding.edit holds rfl rfl rfl
  allow holds := abiding.edit holds rfl rfl rfl
  forbid holds := abiding.edit holds rfl rfl rfl

/-- Some other event is cancelled. -/
theorem cancel :
    Action.Mirrors (Itself P) (unschedule env .spmReset) (unschedule env .spmReset) := by
  have cancels : Action.Respects (Keeps P) (unschedule env .spmReset) := by
    refine .bind .get fun m => .bind (.modify fun m holds => ?_) fun _ => ?_
    · exact abiding.muted m _ (.remove (decide_eq_false abiding.other)) holds
    dsimp only
    split
    · exact .bind (.modify fun _ holds => abiding.edit holds rfl rfl rfl) fun _ => .pure _
    · exact .bind (.pure _) fun _ => .pure _
  exact cancels.itself

theorem mirrors_writeSpmControl (value : UInt8) :
    Attempt.Mirrors (Itself P) (writeSpmControl env value) (writeSpmControl env value) :=
  abiding.programInvariant.toQuietInvariant.accord.mirrors_writeSpmControl abiding.cancel
    (fun _ ⟨same, holds⟩ => ⟨same ▸ rfl, abiding.edit holds rfl rfl rfl⟩) (fun _ _ _ => trivial)
    value

theorem storing : Storing env (Itself P) Eq fun _ => True where
  toQuietAccord := abiding.programInvariant.toQuietInvariant.accord
  device handle hook _ := (abiding.upholds.notify handle hook).itself
  cancel := abiding.cancel
  fill _ _ _ := fun ⟨same, holds⟩ => ⟨same ▸ rfl, abiding.edit holds rfl rfl rfl⟩
  control value same _ := (abiding.mirrors_writeSpmControl value).agree _ _ same

theorem executing : Executing env (Itself P) Eq fun _ => True where
  toAccesses := abiding.programInvariant.computing.accesses_of_freePairs
    abiding.mirrors_writeSpmControl (.of_free fun _ => trivial)
    fun _ _ ⟨same, holds⟩ => ⟨same ▸ rfl, abiding.edit holds rfl rfl rfl⟩
  breaking := fun ⟨same, holds⟩ => ⟨same ▸ rfl, abiding.muted _ _ .breaking holds⟩
  jump _ := fun ⟨same, holds⟩ => ⟨same ▸ rfl, abiding.edit holds rfl rfl rfl⟩

/-- An event that is no timeout fires. -/
theorem keeps_fire {event : Event} (calm : event.pauses = false) :
    Action.Respects (Keeps P) (fire env event) :=
  have withstands : event.pauses = true → Accord env (Itself P) Eq fun _ => True :=
    fun pauses => absurd (calm.symm.trans pauses) Bool.false_ne_true
  (abiding.storing.settling.mirrors_fire event withstands).keeps

section Passing

variable (advances : ∀ cycles, Action.Respects (Keeps P) (advance env cycles))
include advances

/-- Nothing is said of what a part of a step fails with. -/
theorem polling : Polling env P (fun _ => True) fun _ => True where
  toAccesses := abiding.executing.toAccesses
  advances := advances
  push word := sustains_of_raises (abiding.executing.mirrors_pushReturn word).keeps
    ⟨fun _ _ _ _ => trivial, fun _ _ _ _ => trivial⟩
  enter _ holds := abiding.edit holds rfl rfl rfl
  wake holds := abiding.muted _ _ .woken holds
  fetch := sustains_fetch (fun _ _ _ holds _ => abiding.edit holds rfl rfl rfl)
    fun _ _ _ _ => trivial
  spend holds := abiding.edit holds rfl rfl rfl
  look _ holds := abiding.edit holds rfl rfl rfl
  stale _ holds := abiding.edit holds rfl rfl rfl
  returned _ holds := abiding.edit holds rfl rfl rfl

theorem working (doze : ∀ m, P m → P m.asleep) : Working env P (fun _ => True) fun _ => True where
  toPolling := abiding.polling advances
  execute i := by
    have handles : Handles env (Itself P) i :=
      abiding.programInvariant.computing.handles
        (fun _ _ holds => abiding.edit holds rfl rfl rfl)
        (fun _ => abiding.storing.mirrors_storeProgram.keeps) fun _ => doze
    have keeps : Attempt.Respects (Keeps P) (execute env i) :=
      (abiding.executing.mirrors_execute
        (.inr fun _ _ _ ⟨same, holds⟩ => ⟨same ▸ rfl, abiding.edit holds rfl rfl rfl⟩)
        handles).keeps
    exact .of_keeps keeps fun _ _ holds => ⟨trivial, holds⟩
  count holds := abiding.edit holds rfl rfl rfl

end Passing

end Abiding

/-- A property that outlasts timeouts as well. -/
structure Withstanding (env : Environment World) (entry : Entry Event)
    (P : Machine World → Prop) : Prop extends Abiding env entry P where
  punctual : ∀ m next, Punctual entry m next → P m → P next
  muted := fun m next muted => punctual m next muted.toPunctual

namespace Withstanding

variable (withstanding : Withstanding env entry P)
include withstanding

theorem accord : Accord env (Itself P) Eq fun _ => True where
  toQuietAccord := withstanding.programInvariant.toQuietInvariant.accord
  add _ _ := fun ⟨same, holds⟩ => ⟨same ▸ rfl, withstanding.punctual _ _ (.add _ _) holds⟩
  timeout := fun ⟨same, holds⟩ => ⟨same ▸ rfl, withstanding.punctual _ _ .timeout holds⟩

/-- If the queue does not matter, the property outlasts the passing of time as well. -/
theorem keeps_advance (queue : ∀ {m} queue, P m → P (m.setQueue queue)) (cycles : Nat) :
    Action.Respects (Keeps P) (advance env cycles) := by
  have background : Background env (Itself P) Eq fun _ => True :=
    { withstanding.accord, withstanding.storing with
      queue := fun _ ⟨same, holds⟩ => ⟨same ▸ rfl, queue _ holds⟩ }
  exact (background.mirrors_advance cycles).keeps

end Withstanding

/-! ### Events -/

section Within

variable (within : env.Within (Punctual entry)) (other : entry.event ≠ .spmReset)
include within other

theorem withstanding_punctual (start : Machine World) :
    Withstanding env entry (Punctual entry start) where
  punctual _ _ punctual before := trans_of (Punctual entry) before punctual
  upholds := within.mono fun _ _ punctual before => trans_of (Punctual entry) before punctual
  other := other

theorem punctual_fire (event : Event) : Action.Respects (Punctual entry) (fire env event) :=
  .of_mirrors fun start =>
    have withstanding := withstanding_punctual within other start
    withstanding.storing.settling.mirrors_fire event fun _ => withstanding.accord

theorem withstanding_asked : Withstanding env entry fun m => m.halt.isSome where
  punctual _ _ punctual := punctual.asked
  upholds := within.mono fun _ _ punctual => punctual.asked
  other := other

theorem withstanding_stops :
    Withstanding env entry fun m => m.state = .stopped → m.Halted where
  punctual _ _ punctual := punctual.stops
  upholds := within.mono fun _ _ punctual => punctual.stops
  other := other

theorem withstanding_halts :
    Withstanding env entry fun m => m.Halted → m.state = .stopped where
  punctual _ _ punctual := punctual.halts
  upholds := within.mono fun _ _ punctual => punctual.halts
  other := other

theorem working_asked : Working env (fun m => m.halt.isSome) (fun _ => True) fun _ => True :=
  have withstanding := withstanding_asked within other
  withstanding.working (withstanding.keeps_advance fun _ => id) fun _ => id

theorem working_stops :
    Working env (fun m => m.state = .stopped → m.Halted) (fun _ => True) fun _ => True :=
  have withstanding := withstanding_stops within other
  withstanding.working (withstanding.keeps_advance fun _ => id) fun _ _ => nofun

/-- An instruction that puts the processor to sleep does not ask whether it was stopped. -/
theorem polling_halts :
    Polling env (fun m => m.Halted → m.state = .stopped) (fun _ => True) fun _ => True :=
  have withstanding := withstanding_halts within other
  withstanding.polling (withstanding.keeps_advance fun _ => id)

end Within

end Avr.Machine

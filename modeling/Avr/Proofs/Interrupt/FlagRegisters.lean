import Avr.Proofs.Interrupt.Chore
import Avr.Proofs.Interrupt.Installed

/-!
Contract: an interrupt of a flag pair is posted exactly while its flag is set, and enabled exactly
while its mask bit is set.

Owns:
- runs of chores and steps;
- flags and the interrupt table along a run;
- what a dispatch does to its flag, and what has to happen before the vector is dispatched again.
-/

namespace Avr.Machine

open Avr.Interrupt Avr.Io

variable {World : Type} {env : Environment World} {pairs : List FlagPair} {pair : FlagPair}
  {raisings : World → Nat → Nat} {idle : Nat → Prop} {bit vector : Nat}
  {start m ready : Machine World}

/-! ### Dispatches -/

/-- The dispatch of a sticky vector leaves its flag alone. -/
theorem MaskedBut.beforeDispatch_of_sticky (masked : Masked pairs m)
    (wired : Wired pairs pair bit vector) (sticky : pair.isSticky bit = true) :
    beforeDispatch env vector m = ((), m) := by
  rw [beforeDispatch_of_quiet (masked.quiet vector), notifyInvoked_eq, masked.heard wired, sticky]
  rfl

/-- The dispatch of any other vector clears its flag. -/
theorem MaskedBut.exists_beforeDispatch (env : Environment World) (masked : Masked pairs m)
    (wired : Wired pairs pair bit vector) (clears : pair.isSticky bit = false) :
    ∃ table, beforeDispatch env vector m = ((), (m.withFlag pair bit false).setTable table) ∧
      Masked pairs ((m.withFlag pair bit false).setTable table) := by
  obtain ⟨table, ran, after⟩ := masked.exists_setFlagBit env wired.1 bit false
    fun _ _ never => never.elim
  refine ⟨table, ?_, after⟩
  rw [beforeDispatch_of_quiet (masked.quiet vector), notifyInvoked_eq, masked.heard wired, clears]
  exact run_orReport ran _

/-! ### Flags and vectors -/

theorem MaskedBut.isPosted_eq (masked : Masked pairs m) (wired : Wired pairs pair bit vector) :
    m.interrupts.table.isPosted vector = byteBit (m.ioStored pair.flagRegister) bit := by
  obtain ⟨value, kind, drives⟩ := masked.drives pair wired.1 .flags
  have stored : m.ioStored pair.flagRegister = value := ioStored_of_kindAt _ kind
  rw [stored]
  exact drives wired.2 id

theorem MaskedBut.isEnabled_eq (masked : Masked pairs m) (wired : Wired pairs pair bit vector) :
    m.interrupts.table.isEnabled vector = byteBit (m.ioStored pair.maskRegister) bit := by
  obtain ⟨value, kind, drives⟩ := masked.drives pair wired.1 .mask
  have stored : m.ioStored pair.maskRegister = value := ioStored_of_kindAt _ kind
  rw [stored]
  exact drives wired.2 id

/-- A flag that was set or cleared is so afterwards. -/
theorem MaskedBut.byteBit_withFlag (masked : Masked pairs m) (wired : Wired pairs pair bit vector)
    (set : Bool) : byteBit ((m.withFlag pair bit set).ioStored pair.flagRegister) bit = set := by
  obtain ⟨value, kind, -⟩ := masked.drives pair wired.1 .flags
  have stored : (m.withFlag pair bit set).ioStored pair.flagRegister =
      withBit (m.ioStored pair.flagRegister) bit set := by
    refine ioStored_of_kindAt .flags (?_ : _ = some (Half.flags.kind _ pair))
    rw [withFlag, kindAt_setIoStored, if_pos rfl]
    exact congrArg (Option.map _) kind
  have below := masked.layout.bits wired
  rw [stored, byteBit_withBit _ below below, if_pos rfl]

/-! ### Runs -/

/-- What may happen to a machine: a step, or anything that someone outside of the run does. -/
inductive Moves (env : Environment World) (pairs : List FlagPair) (raisings : World → Nat → Nat)
    (m : Machine World) : Machine World → Prop where
  | step : Moves env pairs raisings m ((step env).run m).2
  | act {act : Action World Unit} (chore : Chore pairs raisings act) :
      Moves env pairs raisings m (act m).2

theorem Tracked.begin (masked : Masked pairs m)
    (rests : ∀ {pair bit vector}, Wired pairs pair bit vector → idle vector →
      m.interrupts.table.isPosted vector = false) : Tracked pairs raisings idle m m where
  toMaskedBut := masked
  part := rfl
  counted _ := Nat.le_refl _
  fresh wired rested posted := by
    rw [rests wired rested] at posted
    cases posted

section Dutiful

variable (dutiful : env.Dutiful pairs raisings)
include dutiful

theorem stepwise_of_dutiful (idle : Nat → Prop) (start : Machine World) :
    Stepwise env (Itself (Tracked pairs raisings idle start)) Eq (Unwired pairs) :=
  stepwise_tracked dutiful.counts (upholds_of_dutiful dutiful idle start)

theorem Tracked.step (tracked : Tracked pairs raisings idle start m) :
    Tracked pairs raisings idle start ((step env).run m).2 :=
  (stepwise_of_dutiful dutiful idle start).keeps_step (stepInvariant_tracked start)
    (fun _ _ tracked => tracked.of_eq rfl rfl rfl rfl rfl) tracked
    fun i _ => handles_tracked dutiful.counts (upholds_of_dutiful dutiful idle start) i

theorem Tracked.run (tracked : Tracked pairs raisings idle start m) {last : Machine World}
    (run : Relation.ReflTransGen (Moves env pairs raisings) m last) :
    Tracked pairs raisings idle start last := by
  induction run with
  | refl => exact tracked
  | tail _ move inductionHypothesis =>
      cases move with
      | step => exact inductionHypothesis.step dutiful
      | act chore => exact chore.keeps.related _ inductionHypothesis

theorem Tracked.atDispatch (tracked : Tracked pairs raisings idle start m)
    (dispatches : Dispatches env m vector ready) : Tracked pairs raisings idle start ready := by
  have spent : Tracked pairs raisings idle start (spendDelay env m).2 :=
    (stepwise_of_dutiful dutiful idle start).mirrors_spendDelay.keeps.related m tracked
  have taken := congrArg Prod.fst dispatches.checks
  dsimp only at taken
  rw [← taken]
  have unmarked := spent.of_aside (.setTable_stale _ false)
  exact unmarked.of_eq rfl rfl rfl rfl rfl

/-- After the dispatch of a vector that is not sticky the vector rests until it is raised. -/
theorem Tracked.afterDispatch (masked : Masked pairs ready)
    (dispatches : Dispatches env m vector ready) (wired : Wired pairs pair bit vector)
    (clears : pair.isSticky bit = false) :
    Tracked pairs raisings (· = vector) ready ((Machine.step env).run m).2 := by
  let told : Machine World :=
    { ready with world := env.note (.dispatched vector ready.cycles) ready.world }
  have begun : Tracked pairs raisings (fun _ => False) ready told :=
    (Tracked.begin masked fun _ never => never.elim).of_aside
      (.of_eq rfl rfl rfl id (dutiful.counts.note _ _))
  obtain ⟨table, ran, after⟩ := begun.toMaskedBut.exists_beforeDispatch env wired clears
  have entered : Tracked pairs raisings (· = vector) ready
      ((told.withFlag pair bit false).setTable table) :=
    { toMaskedBut := after
      part := rfl
      counted := begun.counted
      fresh := by
        intro pair' bit' other wired' same posted
        subst same
        rw [after.isPosted_eq wired] at posted
        exact absurd (posted.symm.trans (begun.toMaskedBut.byteBit_withFlag wired false)) nofun }
  have stepwise := stepwise_of_dutiful dutiful (· = vector) ready
  have handled : Tracked pairs raisings (· = vector) ready ((dispatch env vector).run ready).2 := by
    rw [run_dispatch, ran]
    exact (stepwise.mirrors_enterHandler vector).keeps.run.related _ entered
  rw [dispatches.run_step, Attempt.run_bind, run_orBreak]
  rcases dispatched : (dispatch env vector).run ready with ⟨fault | value, next⟩ <;>
    rw [dispatched] at handled
  · exact handled
  · exact stepwise.keeps_finishStep (fun _ _ tracked => tracked.of_eq rfl rfl rfl rfl rfl)
      (stepInvariant_tracked ready).toExecutionInvariant handled
      (fun _ _ _ _ i _ => handles_tracked dutiful.counts
        (upholds_of_dutiful dutiful (· = vector) ready) i) nofun

end Dutiful

/-! ### The main result -/

/-- Wherever chores and steps lead from a machine on which the pairs were installed, the interrupt of
a flag is posted exactly if the flag is set, enabled exactly if its mask bit is set, and so pending
exactly if both are.

The dispatch of a sticky interrupt leaves the machine as it is, so the interrupt stays posted until
its flag is cleared. The dispatch of any other clears the flag, and the interrupt is neither posted
nor dispatched again before it was raised again. -/
theorem interrupts_follow_flags (dutiful : env.Dutiful pairs raisings) (fit : Fit pairs start)
    (installed : (pairs.forM installPair).run start = (.ok (), m)) {last : Machine World}
    (run : Relation.ReflTransGen (Moves env pairs raisings) m last)
    (wired : Wired pairs pair bit vector) :
    (last.interrupts.table.isPosted vector = byteBit (last.ioStored pair.flagRegister) bit ∧
      last.interrupts.table.isEnabled vector = byteBit (last.ioStored pair.maskRegister) bit ∧
      last.interrupts.table.isPending vector =
        (byteBit (last.ioStored pair.flagRegister) bit &&
          byteBit (last.ioStored pair.maskRegister) bit)) ∧
    ∀ {ready}, dispatched? env last = some (vector, ready) →
      (pair.isSticky bit = true →
        ready.interrupts.table.isPosted vector = true ∧
          (beforeDispatch env vector ready).2 = ready) ∧
      (pair.isSticky bit = false →
        byteBit ((beforeDispatch env vector ready).2.ioStored pair.flagRegister) bit = false ∧
        (beforeDispatch env vector ready).2.interrupts.table.isPosted vector = false ∧
        ∀ {later}, Relation.ReflTransGen (Moves env pairs raisings) ((step env).run last).2 later →
          (later.interrupts.table.isPosted vector = true →
            raisings ready.world vector < raisings later.world vector) ∧
          ∀ {again}, dispatched? env later = some (vector, again) →
            raisings ready.world vector < raisings again.world vector) := by
  have begun : Tracked pairs raisings (fun _ => False) m m :=
    .begin (masked_of_installAll fit installed) fun _ never => never.elim
  have reached : Tracked pairs raisings (fun _ => False) m last := begun.run dutiful run
  have posted := reached.toMaskedBut.isPosted_eq wired
  have enabled := reached.toMaskedBut.isEnabled_eq wired
  refine ⟨⟨posted, enabled, ?_⟩, fun {ready} dispatched => ?_⟩
  · rw [reached.table.isPending_eq, posted, enabled]
  have dispatches := dispatches_of_dispatched dispatched
  have masked : Masked pairs ready := (reached.atDispatch dutiful dispatches).toMaskedBut
  refine ⟨fun sticky => ⟨?_, ?_⟩, fun clears => ?_⟩
  · exact dispatches.isPosted masked.table
  · rw [masked.beforeDispatch_of_sticky wired sticky]
  · obtain ⟨table, ran, after⟩ := masked.exists_beforeDispatch env wired clears
    have cleared := masked.byteBit_withFlag wired false
    rw [ran]
    refine ⟨cleared, (after.isPosted_eq wired).trans cleared, fun {later} onward => ?_⟩
    have rests := (Tracked.afterDispatch dutiful masked dispatches wired clears).run dutiful onward
    refine ⟨fun posted => rests.fresh wired rfl posted, fun {again} dispatched' => ?_⟩
    have dispatches' := dispatches_of_dispatched dispatched'
    have rests' := rests.atDispatch dutiful dispatches'
    exact rests'.fresh wired rfl (dispatches'.isPosted rests'.table)

/-! ### A timer that raises its interrupt again -/

/-- Two flags, the second of which is sticky. -/
def timerPair : FlagPair :=
  ((FlagPair.new 0x16 0x17).assign 0 1 false).assign 1 2 true

theorem mem_timerPair {bit vector : Nat} :
    (bit, vector) ∈ timerPair.mapped ↔ bit = 0 ∧ vector = 1 ∨ bit = 1 ∧ vector = 2 := by
  have mapped : timerPair.mapped = [(0, 1), (1, 2)] := by decide
  simp [mapped]

/-- A part with little memory and four interrupts. -/
def timerPart : Part :=
  { Part.atmega128 with sramSize := 8, flashSize := 16, interruptCount := 4 }

theorem layout_timerPair : Layout timerPart [timerPair] where
  registers pair member pair' member' half half' same := by
    obtain rfl := List.mem_singleton.mp member
    obtain rfl := List.mem_singleton.mp member'
    refine ⟨rfl, ?_⟩
    cases half <;> cases half' <;> first | rfl | cases same
  core pair member half := by
    obtain rfl := List.mem_singleton.mp member
    cases half <;> decide
  vectors := by
    rintro pair pair' bit bit' vector ⟨member, mapped⟩ ⟨member', mapped'⟩
    obtain rfl := List.mem_singleton.mp member
    obtain rfl := List.mem_singleton.mp member'
    rw [mem_timerPair] at mapped mapped'
    exact ⟨rfl, by omega⟩
  bits := by
    rintro pair bit vector ⟨member, mapped⟩
    obtain rfl := List.mem_singleton.mp member
    rw [mem_timerPair] at mapped
    omega

/-- An environment of which nothing is heard. -/
def stillness : Environment (List Nat) where
  note _ world := world
  readOutside _ _ _ blank world := (blank, world)
  writeOutside _ _ _ _ world := world
  notify _ _ := return
  readDevice _ := return 0
  writeDevice _ _ := return
  readDeviceBit _ _ := return false
  writeDeviceBit _ _ _ := return
  patience := 2

/-- How often each interrupt was raised, where the world is the list of raised interrupts. -/
def timesRaised (world : List Nat) (vector : Nat) : Nat :=
  world.count vector

theorem counts_stillness : stillness.Counts timesRaised where
  note _ _ _ := Nat.le_refl _
  readOutside _ _ _ _ _ _ := Nat.le_refl _
  writeOutside _ _ _ _ _ _ := Nat.le_refl _

theorem chore_still (operation : Operation [timerPair]) {count : List Nat → List Nat}
    (counted : operation.Counted timesRaised count) :
    Chore [timerPair] timesRaised (operation.performCounted stillness count).run :=
  .operation counts_stillness (fun _ _ => .done _) (fun _ => .done _) (fun _ _ => .done _)
    (fun _ _ => .done _) (fun _ _ _ => .done _) operation counted

/-- A write that raises nothing needs no counting. -/
def write (register : Nat) (value : UInt8) : Attempt (List Nat) Unit :=
  (Operation.writeIo register value : Operation [timerPair]).performCounted stillness id

theorem chore_write (register : Nat) (value : UInt8) :
    Chore [timerPair] timesRaised (write register value).run :=
  chore_still _ ⟨fun _ _ => Nat.le_refl _, fun _ _ never => never.elim⟩

/-- Set the first flag, and record that its interrupt was raised. -/
def raiseFirst : Attempt (List Nat) Unit :=
  (Operation.setFlag timerPair List.mem_cons_self 0 true :
    Operation [timerPair]).performCounted stillness (1 :: ·)

theorem chore_raiseFirst : Chore [timerPair] timesRaised raiseFirst.run := by
  refine chore_still _ ⟨fun world vector => ?_, fun world vector raises => ?_⟩
  · exact List.count_le_count_cons
  · obtain ⟨-, rfl⟩ | ⟨never, -⟩ := mem_timerPair.mp raises
    · simp [timesRaised]
    · cases never

/-- An environment in which every event sets the first flag. -/
def timerEvents : Environment (List Nat) :=
  { stillness with
    notify := fun _ hook =>
      match hook with
      | .event => do let _ ← raiseFirst.run
      | _ => return }

theorem dutiful_timerEvents : timerEvents.Dutiful [timerPair] timesRaised where
  counts := ⟨counts_stillness.note, counts_stillness.readOutside, counts_stillness.writeOutside⟩
  notify _ hook := by
    unfold timerEvents
    dsimp only
    split
    · exact .andThen chore_raiseFirst fun _ => .done _
    · exact .done _
  readDevice _ := .done _
  writeDevice _ _ := .done _
  readDeviceBit _ _ := .done _
  writeDeviceBit _ _ _ := .done _

/-- Both interrupts enabled, interrupts allowed, and the first flag set. -/
def prepareTimer : Action (List Nat) Unit := do
  let _ ← (loadProgram (Program.ofInstrs [.control .nop, .control .nop])).run
  let _ ← (write 0x17 0x03).run
  let _ ← (write 0x3F 0x80).run
  let _ ← raiseFirst.run

theorem aside_loadProgram (program : Program) (m : Machine World) :
    Aside pairs raisings m ((loadProgram program).run m).2 := by
  have same (flash : Flash) : Aside pairs raisings m { m with flash } :=
    .of_eq rfl rfl rfl id fun _ => Nat.le_refl _
  rw [loadProgram, Attempt.run_attempt]
  by_cases fits : program.size ≤ m.flash.size
  · rw [if_pos fits]
    cases m.flash.load 0 program.bytes.toList with
    | ok flash => exact same flash
    | error fault => exact same m.flash
  · rw [if_neg fits]
    exact same m.flash

theorem chore_prepareTimer : Chore [timerPair] timesRaised prepareTimer :=
  .andThen (.aside _ (aside_loadProgram _)) fun _ =>
    .andThen (chore_write _ _) fun _ => .andThen (chore_write _ _) fun _ =>
      .andThen chore_raiseFirst fun _ => .done _

/-- The first interrupt is dispatched, and once more after it was raised again. -/
theorem interrupts_follow_flags_timer :
    let start := new timerPart ⟨.known 0, false, false⟩ []
    let m := (([timerPair].forM installPair).run start).2
    let last := (prepareTimer m).2
    let later := (prepareTimer ((step timerEvents).run last).2).2
    last.interrupts.table.isPending 1 = true ∧
      ∃ ready again, dispatched? timerEvents last = some (1, ready) ∧
        (beforeDispatch timerEvents 1 ready).2.interrupts.table.isPosted 1 = false ∧
        dispatched? timerEvents later = some (1, again) ∧
        timesRaised ready.world 1 < timesRaised again.world 1 := by
  intro start m last later
  have fit : Fit [timerPair] start := fit_new layout_timerPair _ _ (.inr rfl)
  have succeeds : (([timerPair].forM installPair).run start).1.isOk = true := by decide +kernel
  have installed : ([timerPair].forM installPair).run start = (.ok (), m) := by
    have left : m = (([timerPair].forM installPair).run start).2 := rfl
    rw [left]
    rcases ran : ([timerPair].forM installPair).run start with ⟨fault | value, next⟩
    · rw [ran] at succeeds
      cases succeeds
    · rfl
  have run : Relation.ReflTransGen (Moves timerEvents [timerPair] timesRaised) m last :=
    .single (.act chore_prepareTimer)
  have wired : Wired [timerPair] timerPair 0 1 :=
    ⟨List.mem_cons_self, mem_timerPair.mpr (.inl ⟨rfl, rfl⟩)⟩
  have first : (dispatched? timerEvents last).map Prod.fst = some 1 := by decide +kernel
  have second : (dispatched? timerEvents later).map Prod.fst = some 1 := by decide +kernel
  obtain ⟨⟨_, ready⟩, dispatched, rfl⟩ := Option.map_eq_some_iff.mp first
  obtain ⟨⟨_, again⟩, dispatched', rfl⟩ := Option.map_eq_some_iff.mp second
  obtain ⟨⟨-, -, pending⟩, dispatches⟩ :=
    interrupts_follow_flags dutiful_timerEvents fit installed run wired
  obtain ⟨-, cleared, rests⟩ := (dispatches dispatched).2 (by decide)
  have onward := rests (.single (.act chore_prepareTimer))
  exact ⟨pending.trans (by decide +kernel), ready, again, dispatched, cleared, dispatched',
    onward.2 dispatched'⟩

end Avr.Machine

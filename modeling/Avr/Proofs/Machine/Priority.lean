import Avr.Proofs.SelfProgramming.Ready

/-!
Contract: which vector a step dispatches.

Owns:
- tables in which some vectors are never posted, and that all operations leave them so;
- the vector that a step dispatches: the lowest pending one, and none that nobody posts.

The table has a slot for vector zero like for any other. It is dispatched before all others as soon
as somebody has both posted and enabled it.
-/

namespace Avr.Machine

open Avr.Interrupt Avr.Io

variable {World : Type} {env : Environment World} {Spare : Nat → Prop} {m next : Machine World}

/-! ### Vectors that nobody posts -/

/-- Neither the unit nor any flag pair posts a spare vector, and none of them is posted. -/
structure Spared (Spare : Nat → Prop) (m : Machine World) : Prop where
  table : m.interrupts.table.Sound
  ready : ¬ Spare m.part.spmReady
  unpaired : ∀ vector, Spare vector → Unpaired vector m
  unposted : ∀ vector, Spare vector → m.interrupts.table.isPosted vector = false

/-- A change that neither posts a spare vector nor has it posted by the unit or a flag pair. -/
structure LeavesSpare (Spare : Nat → Prop) (m next : Machine World) : Prop where
  table : m.interrupts.table.Sound → next.interrupts.table.Sound
  ready : next.part.spmReady = m.part.spmReady
  unpaired : ∀ vector, Spare vector → Unpaired vector m → Unpaired vector next
  unposted : ∀ vector, Spare vector → m.interrupts.table.Sound →
    m.interrupts.table.isPosted vector = false → next.interrupts.table.isPosted vector = false

theorem Spared.of_leavesSpare (spared : Spared Spare m) (leaves : LeavesSpare Spare m next) :
    Spared Spare next where
  table := leaves.table spared.table
  ready := leaves.ready ▸ spared.ready
  unpaired vector spare := leaves.unpaired vector spare (spared.unpaired vector spare)
  unposted vector spare :=
    leaves.unposted vector spare spared.table (spared.unposted vector spare)

theorem LeavesSpare.edit (part : next.part = m.part) (interrupts : next.interrupts = m.interrupts)
    (io : next.io = m.io) : LeavesSpare Spare m next where
  table := by
    rw [interrupts]
    exact id
  ready := by rw [part]
  unpaired _ _ unpaired := unpaired.of_eq io (by rw [interrupts])
  unposted _ _ _ unposted := by rwa [interrupts]

/-- Every operation on the table itself, unless it posts a spare vector. -/
theorem LeavesSpare.setTable {half : Half} {set : Bool} {vector : Nat} {table : Table}
    (changed : half.change set m.interrupts.table vector = .ok table)
    (free : half = .flags → set = true → ¬ Spare vector) :
    LeavesSpare Spare m (m.setTable table) where
  table sound := sound.change (half.isChange set changed)
  ready := rfl
  unpaired _ _ unpaired := unpaired.of_eq rfl rfl
  unposted other spare sound unposted := by
    show Half.flags.drives table other = false
    cases half with
    | mask =>
        rw [Half.drives_of_change_other changed (nofun : Half.flags ≠ .mask)]
        exact unposted
    | flags =>
        rw [Half.drives_of_change sound changed]
        by_cases here : other = vector
        · subst here
          cases set with
          | false => exact if_pos rfl
          | true => exact absurd spare (free rfl rfl)
        · rw [if_neg here]
          exact unposted

theorem LeavesSpare.stale (stale : Bool) :
    LeavesSpare Spare m (m.setTable { m.interrupts.table with stale }) where
  table sound := sound.with_stale stale
  ready := rfl
  unpaired _ _ unpaired := unpaired.of_eq rfl rfl
  unposted _ _ _ unposted := unposted

theorem LeavesSpare.store (register : Nat) (value : UInt8) :
    LeavesSpare Spare m (m.setIoStored register value) where
  table := id
  ready := rfl
  unpaired _ _ unpaired := unpaired.setIoStored register value
  unposted _ _ _ unposted := unposted

theorem freePair_of_unpaired {pair : FlagPair}
    (unpaired : ∀ vector, Spare vector → FreePair (· ≠ vector) pair) :
    FreePair (fun vector => ¬ Spare vector) pair := by
  intro bit vector mapped spare
  exact unpaired vector spare bit vector mapped rfl

theorem freePairs_spared :
    FreePairs (Itself (Spared Spare : Machine World → Prop)) fun vector => ¬ Spare vector where
  flags := fun ⟨same, spared⟩ installed => freePair_of_unpaired fun vector spare =>
    (spared.unpaired vector spare).registers .flags (same ▸ installed)
  mask := fun ⟨same, spared⟩ installed => freePair_of_unpaired fun vector spare =>
    (spared.unpaired vector spare).registers .mask (same ▸ installed)
  told := fun ⟨same, spared⟩ told => freePair_of_unpaired fun vector spare =>
    (spared.unpaired vector spare).told (same ▸ told)

theorem unitInvariant_spared (Spare : Nat → Prop) :
    UnitInvariant (Spared Spare : Machine World → Prop) fun vector => ¬ Spare vector where
  untouched _ _ same spared := spared.of_leavesSpare (.edit same.part same.interrupts same.io)
  add _ _ _ spared := spared.of_leavesSpare (.edit rfl rfl rfl)
  grant _ _ spared := spared.of_leavesSpare (.edit rfl rfl rfl)
  posting _ _ _ _ free changed spared := spared.of_leavesSpare (.setTable changed fun _ _ => free)
  enabling _ _ _ _ changed spared := spared.of_leavesSpare (.setTable changed nofun)
  stale _ stale spared := spared.of_leavesSpare (.stale stale)
  store _ register value spared := spared.of_leavesSpare (.store register value)

theorem unconcerned_spared : Unconcerned (Itself (Spared Spare : Machine World → Prop)) :=
  unconcerned_itself (fun _ spared => spared.of_leavesSpare (.edit rfl rfl rfl))
    fun _ spared => spared.of_leavesSpare (.edit rfl rfl rfl)

section Upheld

variable (upholds : env.Upholds (Spared Spare))
include upholds

theorem background_spared :
    Background env (Itself (Spared Spare)) Eq fun vector => ¬ Spare vector := by
  apply ((unitInvariant_spared Spare).accord upholds).background unconcerned_spared
  · intro handle hook _
    exact (upholds.notify handle hook).itself
  · intro m n ⟨same, spared⟩
    exact same ▸ spared.ready

theorem keeps_writeSpmControl_spared (value : UInt8) :
    Attempt.Respects (Keeps (Spared Spare)) (writeSpmControl env value) := by
  have accord := (unitInvariant_spared Spare).accord upholds
  have cancel : Action.Mirrors (Itself (Spared Spare)) (unschedule env .spmReset)
      (unschedule env .spmReset) := accord.mirrors_unschedule unconcerned_spared.queue _
  apply (accord.mirrors_writeSpmControl cancel (fun _ => unconcerned_spared.spm _) _ value).keeps
  intro m n ⟨same, spared⟩
  exact same ▸ spared.ready

end Upheld

theorem standing_spared (Spare : Nat → Prop) :
    Standing (Spared Spare : Machine World → Prop) fun vector => ¬ Spare vector where
  toUnitInvariant := unitInvariant_spared Spare
  pairs := freePairs_spared
  control _ upholds := keeps_writeSpmControl_spared upholds
  passing _ upholds cycles := ((background_spared upholds).mirrors_advance cycles).keeps

theorem keeps_step_spared (upholds : env.Upholds (Spared Spare)) :
    Action.Respects (Keeps (Spared Spare)) (step env).run := by
  constructor
  intro m spared
  apply (standing_spared Spare).keeps_step upholds spared
  intro _
  exact (background_spared upholds).mirrors_storeProgram.keeps

theorem spared_new {part : Part} (free : ¬ Spare part.spmReady) (settings : Settings)
    (world : World) : Spared Spare (new part settings world) := by
  have layout : Layout part [] :=
    { registers := nofun
      core := nofun
      vectors := fun wired _ => nomatch wired.1
      bits := fun wired => nomatch wired.1 }
  have fit : Fit [] (new part settings world) :=
    fit_new layout settings world (.inl fun _ _ wired => nomatch wired.1)
  constructor
  case table => exact fit.table
  case ready => exact free
  case unpaired =>
    intro vector _
    exact ⟨fun _ _ _ installed => absurd installed (fit.clear _ _ _ _),
      fun found => absurd found (fit.silent _ _ _ _)⟩
  case unposted =>
    intro vector _
    show (Table.new part.interruptCount).isPosted vector = false
    simp [Table.isPosted, Table.holds, Table.new]

/-! ### The vector that is dispatched -/

theorem Spared.ready_of_dispatches (spared : Spared Spare m)
    (upholds : env.Upholds (Spared Spare)) {vector : Nat} {ready : Machine World}
    (dispatches : Dispatches env m vector ready) : Spared Spare ready := by
  have spent : Spared Spare (spendDelay env m).2 :=
    ((standing_spared Spare).stepwise upholds).mirrors_spendDelay.keeps.related m spared
  have marked : Spared Spare (takeCheck (spendDelay env m).2).1 :=
    (spent.of_leavesSpare (.stale false)).of_leavesSpare (.edit rfl rfl rfl)
  rwa [dispatches.checks] at marked

/-- What is dispatched is pending when the step makes its check, and everything below is not. -/
theorem Dispatches.lowest {vector : Nat} {ready : Machine World}
    (dispatches : Dispatches env m vector ready) (sound : ready.interrupts.table.Sound) :
    ready.interrupts.table.isPending vector = true ∧
      ∀ lower < vector, ready.interrupts.table.isPending lower = false := by
  obtain ⟨isSet, others⟩ := Table.first?_eq_some_iff.mp dispatches.offered
  refine ⟨sound.isPending_iff.mpr isSet, ?_⟩
  intro lower below
  rw [Table.isPending, Table.holds, others lower below, Bool.and_false]

/-- Every dispatch that a step makes is of the lowest vector that is pending at its check. A step
that dispatches none goes on after its check, which changes marks only.

Spare vectors, which neither the unit nor a flag pair posts, stay unposted whatever is done to a
machine by its program and by everyone else, as long as nobody posts them, and are never dispatched.
Vector zero is no exception: it is dispatched exactly if somebody has posted and enabled it. -/
theorem lowest_pending_vector_is_dispatched {part : Part} (free : ¬ Spare part.spmReady)
    (settings : Settings) (world : World) :
    (∀ {α : Type} (act : Action World α),
      Deed (LeavesSpare Spare) (fun vector => ¬ Spare vector) (fun _ => True) act →
        Spared Spare (act (new part settings world)).2) ∧
    (∀ (env : Environment World) m, m.state ≠ .stopped → dispatched? env m = none →
      ∃ owed, (step env).run m =
        (finishStep env owed).run (spendDelay env m).2.undispatched) ∧
    ∀ env : Environment World,
      env.Does (LeavesSpare Spare) (fun vector => ¬ Spare vector) (fun _ => True) →
      ∀ m vector ready, Spared Spare m → dispatched? env m = some (vector, ready) →
        let table := ready.interrupts.table
        (step env).run m =
            (do orBreak (dispatch env vector); finishStep env false : Stepping World Unit).run
              ready ∧
          vector < table.size ∧ table.isPending vector = true ∧
          (∀ lower < vector, table.isPending lower = false) ∧
          ¬ Spare vector ∧
          (vector = 0 ↔ table.isPosted 0 = true ∧ table.isEnabled 0 = true) := by
  have standing : Standing (Spared Spare : Machine World → Prop) fun vector => ¬ Spare vector :=
    standing_spared Spare
  have leaves (m next : Machine World) (leaves : LeavesSpare Spare m next)
      (spared : Spared Spare m) : Spared Spare next := spared.of_leavesSpare leaves
  have steps (env : Environment World) (upholds : env.Upholds (Spared Spare)) (_ : True) :
      Action.Respects (Keeps (Spared Spare)) (step env).run := keeps_step_spared upholds
  refine ⟨?reached, fun _ _ => run_step_of_not_dispatched, ?dispatches⟩
  case reached =>
    intro α act deed
    exact (deed.keeps standing leaves steps).related _ (spared_new free settings world)
  case dispatches =>
    intro env does m vector ready spared dispatched table
    have dispatches := dispatches_of_dispatched dispatched
    have after : Spared Spare ready :=
      spared.ready_of_dispatches (upholds_of_does standing leaves steps does) dispatches
    obtain ⟨pending, lowest⟩ := dispatches.lowest after.table
    have posted : table.isPosted vector = true ∧ table.isEnabled vector = true := by
      rwa [after.table.isPending_eq, Bool.and_eq_true] at pending
    have inside : vector < table.size := by
      have slot := posted.1
      rw [Table.isPosted, Table.holds, Bool.and_eq_true, decide_eq_true_eq] at slot
      exact slot.1
    refine ⟨dispatches.run_step, inside, pending, lowest, ?spare, ?zero⟩
    case spare =>
      intro spare
      rw [after.unposted vector spare] at posted
      cases posted.1
    case zero =>
      constructor
      · rintro rfl
        exact posted
      · intro both
        by_cases zero : vector = 0
        · exact zero
        · have idle := lowest 0 (Nat.pos_of_ne_zero zero)
          rw [after.table.isPending_eq, both.1, both.2] at idle
          cases idle

/-- Have a vector posted and enabled, and interrupts allowed. -/
def requestVector (vector : Nat) : Action Unit Unit := do
  let _ ← (setPosted silence vector true).run
  let _ ← (setEnabled silence vector true).run
  enableInterrupts silence

/-- Vector zero is enabled too, but nobody posts it. -/
def requestOne : Action Unit Unit := do
  let _ ← (setEnabled silence 0 true).run
  requestVector 1

theorem lowest_pending_vector_is_dispatched_one :
    let m := (requestOne (new smallPart ⟨.known 0, false, false⟩ ())).2
    ∃ ready, dispatched? silence m = some (1, ready) ∧ 1 < ready.interrupts.table.size ∧
      ready.interrupts.table.isPending 0 = false := by
  intro m
  have free : ¬ smallPart.spmReady = 0 := by decide
  have deed : Deed (LeavesSpare (· = 0)) (fun vector => ¬ vector = 0) (fun _ => True)
      requestOne :=
    .andThen (.perform does_silence (.setEnabled 0 true)) fun _ =>
      .andThen (.perform does_silence (.setPosted true (by decide))) fun _ =>
        .andThen (.perform does_silence (.setEnabled 1 true)) fun _ =>
          .perform does_silence .enableInterrupts
  have dispatches : ∃ ready, dispatched? silence m = some (1, ready) := by
    have first : (dispatched? silence m).map Prod.fst = some 1 := by decide +kernel
    obtain ⟨⟨vector, ready⟩, found, rfl⟩ := Option.map_eq_some_iff.mp first
    exact ⟨ready, found⟩
  obtain ⟨ready, dispatched⟩ := dispatches
  have spared := (lowest_pending_vector_is_dispatched free ⟨.known 0, false, false⟩ ()).1 _ deed
  have result := (lowest_pending_vector_is_dispatched free ⟨.known 0, false, false⟩ ()).2.2 silence
    does_silence m 1 ready spared dispatched
  exact ⟨ready, dispatched, result.2.1, result.2.2.2.1 0 (by decide)⟩

/-- Vector zero is dispatched like any other: it has a slot, and nothing keeps it from being posted
and enabled. -/
theorem vector_zero_is_dispatched :
    let m := (requestVector 0 (new smallPart ⟨.known 0, false, false⟩ ())).2
    ∃ ready, dispatched? silence m = some (0, ready) ∧
      (step silence).run m =
        (do orBreak (dispatch silence 0); finishStep silence false : Stepping Unit Unit).run
          ready := by
  intro m
  have first : (dispatched? silence m).map Prod.fst = some 0 := by decide +kernel
  obtain ⟨⟨vector, ready⟩, found, zero⟩ := Option.map_eq_some_iff.mp first
  cases zero
  exact ⟨ready, found, (dispatches_of_dispatched found).run_step⟩

end Avr.Machine

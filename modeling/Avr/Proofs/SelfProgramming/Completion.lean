import Avr.Proofs.SelfProgramming.Unit

/-!
Contract: the events of the self-programming unit, when time passes.

Owns:
- the timeout, which disarms the unit;
- the completion of a page, which also puts its contents into flash;
- the passing of time as a step to a later stage.

An event that was handed out is queued no longer, so nothing that is called before it in its cycle
can make it fire early or twice.
-/

namespace Avr.Machine

open Avr.Isa Avr.Time

variable {World : Type} {env : Environment World}

/-! ### What fires -/

/-- Without a unit there is nothing to disarm, and a fault in disarming is only noted. -/
theorem settleOperation_eq (env : Environment World) (m : Machine World) :
    (settleOperation env m).2 =
      if m.spm.isSome then
        match (clearOperation env).run m with
        | (.ok (), cleared) => cleared
        | (.error fault, cleared) => (note env (.spmResetFailed fault) cleared).2
      else m := by
  rw [settleOperation, Action.apply_get_bind]
  split
  · rw [Action.apply_bind]
    rcases (clearOperation env).run m with ⟨fault | _, cleared⟩ <;> rfl
  · rfl

theorem completePage_eq (env : Environment World) (start size : Nat)
    (contents : Option (List UInt8)) (m : Machine World) :
    ∃ notice, completePage env start size contents m =
      settleOperation env (note env notice
        { m with
          flash := m.flash.apply (.load start (contents.getD (erasedPage size))) }).2 := by
  rw [completePage, Action.apply_get_bind, Flash.apply]
  rcases m.flash.load start (contents.getD (erasedPage size)) with fault | flash
  · exact ⟨.pageFailed (pageAction contents) fault, rfl⟩
  · exact ⟨.pageComplete (pageAction contents) start, rfl⟩

namespace Staged

variable {origin m : Machine World} {cycle : Nat} {unit : SelfProgramming} {bytes : Nat → UInt8}
  (staged : Staged origin ⟨cycle, none, unit, bytes⟩ m) (distant : Distant env)
include staged distant

theorem settleOperation : ∃ now, cycle ≤ now ∧
    Staged origin ⟨now, none, disarmed unit, bytes⟩ (Machine.settleOperation env m).2 := by
  obtain ⟨-, later, isLater, cleared⟩ := staged.clearOperation distant
  obtain ⟨now, passed, rfl⟩ := isLater.of_none
  refine ⟨now, passed, ?_⟩
  rw [settleOperation_eq, staged.unit, if_pos Option.isSome_some]
  generalize (Machine.clearOperation env).run m = result at cleared ⊢
  obtain ⟨fault | _, after⟩ := result
  · exact cleared.elsewhere ((elsewhere_note env _).related after)
  · exact cleared

/-- An event of the unit that was handed out fires. -/
theorem fire {event : Event} (ofUnit : event.ofUnit = true) (once : event.once = true) :
    ∃ now, cycle ≤ now ∧
      Staged origin ⟨now, none, disarmed unit, programmed origin.flash.size bytes event⟩
        (Machine.fire env event m).2 := by
  cases event with
  | spmReset => exact staged.settleOperation distant
  | pageOperation start size contents =>
      obtain ⟨notice, completes⟩ := completePage_eq env start size contents m
      have programs : Staged origin
          ⟨cycle, none, unit,
            programmed origin.flash.size bytes (.pageOperation start size contents)⟩
          { m with flash := m.flash.apply (.load start (contents.getD (erasedPage size))) } :=
        { staged with
          device := staged.device
          flash := staged.flash.foldl [.load start (contents.getD (erasedPage size))] }
      rw [Machine.fire, completes]
      exact (programs.elsewhere ((elsewhere_note env notice).related _)).settleOperation distant
  | periodic => cases once
  | outside | timeout | arrival => cases ofUnit

end Staged

/-! ### Deliveries -/

/-- A batch without events of the unit. -/
theorem Distant.forward_batch (distant : Distant env) {batch : List Event}
    (others : ∀ event ∈ batch, event.ofUnit = false) :
    Action.Respects Forward (batch.forM (Machine.fire env)) := by
  induction batch with
  | nil => exact .pure _
  | cons first rest inductionHypothesis =>
      exact .bind (distant.forward_fire (others first List.mem_cons_self)) fun _ =>
        inductionHypothesis fun event member => others event (List.mem_cons_of_mem first member)

/-- A batch with one event of the unit, which is not queued any longer. -/
theorem Staged.batch {origin m : Machine World} {cycle : Nat} {unit : SelfProgramming}
    {bytes : Nat → UInt8} (staged : Staged origin ⟨cycle, none, unit, bytes⟩ m)
    (distant : Distant env) {event : Event} (ofUnit : event.ofUnit = true)
    (once : event.once = true) {before after : List Event}
    (othersBefore : ∀ event ∈ before, event.ofUnit = false)
    (othersAfter : ∀ event ∈ after, event.ofUnit = false) :
    ∃ now, cycle ≤ now ∧
      Staged origin ⟨now, none, disarmed unit, programmed origin.flash.size bytes event⟩
        ((before ++ event :: after).forM (Machine.fire env) m).2 := by
  have split (batch : List Event) (m : Machine World) :
      ((batch ++ event :: after).forM (Machine.fire env) m).2 =
        (after.forM (Machine.fire env)
          (Machine.fire env event (batch.forM (Machine.fire env) m).2).2).2 := by
    induction batch generalizing m with
    | nil => rfl
    | cons first rest inductionHypothesis => exact inductionHypothesis _
  rw [split]
  -- With nothing queued, the callbacks of the others can only let time pass.
  obtain ⟨_, isLater, started⟩ := ((distant.forward_batch othersBefore).related m).later staged
  obtain ⟨first, firstPassed, rfl⟩ := isLater.of_none
  obtain ⟨second, secondPassed, fired⟩ := started.fire distant ofUnit once
  obtain ⟨_, isLast, ended⟩ := ((distant.forward_batch othersAfter).related _).later fired
  obtain ⟨last, lastPassed, rfl⟩ := isLast.of_none
  exact ⟨last, firstPassed.trans (secondPassed.trans lastPassed), ended⟩

/-- Time passes on the queue only. What may be queued for the unit stays there or is taken off. -/
theorem Staged.setQueue {origin m : Machine World} {stage : Stage} (staged : Staged origin stage m)
    {queue : DeltaQueue Event} (tidy : DeltaQueue.Tidy queue.links) {queued : Option (Entry Event)}
    (remaining : queue.selected Event.ofUnit = queued.toList)
    (once : ∀ entry ∈ queued, entry.event.once = true) :
    Staged origin { stage with cycle := queue.count, queued } (m.setQueue queue) :=
  { staged with device := staged.device, tidy, cycle := rfl, queued := remaining, once }

/-- Nothing more is due. -/
theorem Staged.notHanded {origin m : Machine World} {stage : Stage} (staged : Staged origin stage m)
    {queue : DeltaQueue Event} (popped : m.clock.queue.popDue = (none, queue)) :
    Staged origin { stage with cycle := queue.count } (m.setQueue queue) := by
  have isQueue : m.clock.queue.popDue.2 = queue := congrArg Prod.snd popped
  refine staged.setQueue (isQueue ▸ DeltaQueue.tidy_perform .popDue staged.tidy) ?_ staged.once
  have split : m.clock.queue.selected Event.ofUnit = _ := m.clock.queue.selected_popDue
  rw [staged.queued, popped] at split
  exact split.symm

/-- A batch is handed out: it holds no event of the unit, or the one that was queued. -/
theorem Staged.handed {origin m : Machine World} {stage : Stage} (staged : Staged origin stage m)
    {batch : List Event} {queue : DeltaQueue Event}
    (handed : m.clock.queue.popDue = (some batch, queue)) :
    ((∀ event ∈ batch, event.ofUnit = false) ∧
      Staged origin { stage with cycle := queue.count } (m.setQueue queue)) ∨
    ∃ before event after, batch = before ++ event :: after ∧ event.ofUnit = true ∧
      (∀ event ∈ before, event.ofUnit = false) ∧ (∀ event ∈ after, event.ofUnit = false) ∧
      stage.queued = some ⟨queue.count, event⟩ ∧
      Staged origin { stage with cycle := queue.count, queued := none } (m.setQueue queue) := by
  have isQueue : m.clock.queue.popDue.2 = queue := congrArg Prod.snd handed
  have tidy : DeltaQueue.Tidy queue.links :=
    isQueue ▸ DeltaQueue.tidy_perform .popDue staged.tidy
  have split : m.clock.queue.selected Event.ofUnit = _ := m.clock.queue.selected_popDue
  rw [staged.queued, handed, Option.getD_some, List.filter_map] at split
  rcases units : batch.filter Event.ofUnit with _ | ⟨event, rest⟩
  · refine .inl ⟨fun event member => ?_, staged.setQueue tidy ?_ staged.once⟩
    · simpa using List.filter_eq_nil_iff.mp units event member
    · rw [split]
      exact (congrArg (List.map _ · ++ _) units).symm
  · have one : stage.queued.toList = ⟨queue.count, event⟩ ::
        (rest.map (Entry.mk queue.count) ++ queue.selected Event.ofUnit) :=
      split.trans (congrArg (List.map _ · ++ _) units)
    obtain ⟨before, after, rfl, othersBefore, ofUnit, restIs⟩ := List.filter_eq_cons_iff.mp units
    rcases queued : stage.queued with _ | entry
    · rw [queued] at one
      cases one
    · rw [queued, Option.toList_some, List.cons.injEq] at one
      obtain ⟨rfl, nothing⟩ := one
      obtain ⟨restNone, remaining⟩ := List.append_eq_nil_iff.mp nothing.symm
      rw [List.map_eq_nil_iff.mp restNone] at restIs
      refine .inr ⟨before, event, after, rfl, ofUnit, ?_, ?_, rfl,
        staged.setQueue tidy remaining nofun⟩
      · simpa using othersBefore
      · simpa using List.filter_eq_nil_iff.mp restIs

/-- By induction on the batches that are handed out. -/
theorem Distant.forward_deliver (distant : Distant env) (bound : Nat) :
    Action.Respects Forward (deliver env bound) := by
  refine ⟨fun m => ?_⟩
  induction bound generalizing m with
  | zero => exact refl_of Forward m
  | succ bound inductionHypothesis =>
      refine ⟨fun {origin stage} staged => ?_⟩
      have passed : stage.cycle ≤ m.clock.queue.popDue.2.count :=
        staged.cycle ▸ DeltaQueue.count_le_perform .popDue m.clock.queue
      have continues {later : Stage} {next : Machine World}
          (isLater : stage.Later origin.flash.size later) (staged : Staged origin later next) :
          ∃ last, stage.Later origin.flash.size last ∧
            Staged origin last (deliver env bound next).2 :=
        have ⟨last, isLast, reached⟩ := (inductionHypothesis next).later staged
        ⟨last, isLater.trans isLast, reached⟩
      rw [deliver_succ]
      rcases popped : m.clock.queue.popDue with ⟨_ | batch, queue⟩
      · rw [popped] at passed
        exact ⟨_, .waits passed, staged.notHanded popped⟩
      · rw [popped] at passed
        rcases staged.handed popped with ⟨others, handed⟩ |
          ⟨before, event, after, rfl, ofUnit, othersBefore, othersAfter, queued, handed⟩
        · obtain ⟨later, isLater, fired⟩ := ((distant.forward_batch others).related _).later handed
          exact continues ((Stage.Later.waits passed).trans isLater) fired
        · have once : event.once = true := staged.once ⟨queue.count, event⟩ queued
          obtain ⟨now, further, fired⟩ := handed.batch distant ofUnit once othersBefore othersAfter
          exact continues (.fires queued further) fired

/-- Cycles are granted, which takes no time yet, and then handed out. -/
theorem Distant.forward_advance (distant : Distant env) (cycles : Nat) :
    Action.Respects Forward (advance env cycles) :=
  have granted : Action.Respects Forward
      (modify fun m : Machine World => m.setQueue (m.clock.queue.advance cycles)) :=
    .modify fun _ => ⟨fun {_ stage} staged => ⟨stage, .refl stage,
      { staged with device := staged.device }⟩⟩
  .bind granted fun _ => distant.forward_deliver env.patience

/-- Callbacks may let time pass before they do what they did. -/
theorem Distant.delayed (distant : Distant env) (cycles : Nat) :
    Distant
      { env with
        notify := fun handle hook => do
          advance env cycles
          env.notify handle hook } where
  callback handle hook :=
    .bind (distant.forward_advance cycles) fun _ => distant.callback handle hook

end Avr.Machine

import Avr.Proofs.SelfProgramming.Completion
import Avr.Proofs.SelfProgramming.Ready

/-!
Contract: an armed operation of the self-programming unit awaits the event that disarms it.

Owns:
- machines on which an event of the unit is queued as long as an operation is armed;
- writes of the control register and events of the unit, which leave such machines wherever they
  begin, and the passing of time, which keeps them;
- the store instruction, which leaves an operation on lock bits or sections armed with nothing queued.

While a batch of events fires its own events are queued no longer, so the machines in between need
not be such machines; the event of the unit in the batch makes good for it.
-/

namespace Avr

open Avr.Interrupt Avr.Io Avr.Isa Avr.Time

namespace Machine

variable {World : Type} {env : Environment World} {lost : UInt8 → Prop} {m next : Machine World}

/-! ### Armed operations -/

/-- The control register names an operation. -/
def Armed (m : Machine World) : Prop :=
  m.spmControl &&& operationMask ≠ 0

instance (m : Machine World) : Decidable m.Armed :=
  inferInstanceAs (Decidable (_ ≠ _))

/-- An event of the unit is queued: the timeout of an armed operation, or the completion of a page. -/
def Awaited (m : Machine World) : Prop :=
  0 < m.clock.queue.countMatching Event.ofUnit

/-- An armed operation is awaited, or it is one of those that get lost. -/
structure Answered (lost : UInt8 → Prop) (m : Machine World) : Prop where
  answered : m.Armed → m.Awaited ∨ lost m.spmControl

/-- The control register holds what it held. -/
def SameControl (m next : Machine World) : Prop :=
  next.spmControl = m.spmControl

instance : IsPreorder (Machine World) SameControl where
  refl _ := rfl
  trans _ _ _ first rest := Eq.trans rest first

end Machine

/-- Nobody who is told that a vector is posted or unposted changes the control register. -/
structure Environment.Tacit {World : Type} (env : Environment World) : Prop where
  posted : ∀ handle vector,
    Action.Respects Machine.SameControl (env.notify handle (.posted vector))
  unposted : ∀ handle vector,
    Action.Respects Machine.SameControl (env.notify handle (.unposted vector))

namespace Machine

variable {World : Type} {env : Environment World} {lost : UInt8 → Prop} {m next : Machine World}

theorem Answered.of_disarmed (disarmed : ¬ m.Armed) : Answered lost m :=
  ⟨fun armed => absurd armed disarmed⟩

theorem Answered.of_awaited (awaited : m.Awaited) : Answered lost m :=
  ⟨fun _ => .inl awaited⟩

theorem awaited_add (awaited : m.Awaited) (event : Event) (delay : Nat) :
    (m.setQueue (m.clock.queue.add event delay)).Awaited := by
  change 0 < (m.clock.queue.add event delay).countMatching Event.ofUnit
  rw [DeltaQueue.countMatching_add]
  exact Nat.add_pos_left awaited _

theorem awaited_schedule (env : Environment World) {event : Event} (ofUnit : event.ofUnit = true)
    (delay : Nat) (m : Machine World) : (schedule env event delay m).2.Awaited := by
  change 0 < (m.clock.queue.add event delay).countMatching Event.ofUnit
  rw [DeltaQueue.countMatching_add, if_pos ofUnit]
  exact Nat.succ_pos _

/-- What is awaited is still queued, or it is handed out. -/
theorem Answered.popDue (answered : Answered lost m) :
    Answered lost (m.setQueue m.clock.queue.popDue.2) ∨
      ∃ event ∈ m.clock.queue.popDue.1.getD [], event.ofUnit = true := by
  by_cases handed : ∃ event ∈ m.clock.queue.popDue.1.getD [], event.ofUnit = true
  · exact .inr handed
  · refine .inl ⟨fun armed => (answered.answered armed).imp_left fun awaited => ?_⟩
    have none : (m.clock.queue.popDue.1.getD []).countP Event.ofUnit = 0 :=
      List.countP_eq_zero.mpr fun event member ofUnit => handed ⟨event, member, ofUnit⟩
    rw [Awaited, DeltaQueue.countMatching_popDue, none, Nat.zero_add] at awaited
    exact awaited

theorem unitInvariant_answered (lost : UInt8 → Prop) :
    UnitInvariant (Answered lost : Machine World → Prop) fun _ => True where
  untouched m next same answered := by
    refine ⟨fun armed => ?_⟩
    rw [Armed, same.control] at armed
    rw [Awaited, same.queue, same.control]
    exact answered.answered armed
  add _ event delay answered :=
    ⟨fun armed => (answered.answered armed).imp_left fun awaited => awaited_add awaited event delay⟩
  grant _ _ answered := ⟨answered.answered⟩
  posting _ _ _ _ _ _ answered := ⟨answered.answered⟩
  enabling _ _ _ _ _ answered := ⟨answered.answered⟩
  stale _ _ answered := ⟨answered.answered⟩
  store _ _ _ answered := ⟨answered.answered⟩

/-! ### The control register -/

theorem sameControl_unschedule (env : Environment World) (event : Event) :
    Action.Respects SameControl (unschedule env event) := by
  refine .bind .get fun m => .bind (.modify fun _ => rfl) fun _ => ?_
  split
  · exact .bind (.modify fun _ => rfl) fun _ => .pure _
  · exact .bind (.pure _) fun _ => .pure _

theorem sameControl_keepOperation (env : Environment World) :
    Action.Respects SameControl (keepOperation env) :=
  .bind (sameControl_unschedule env _) fun _ => .pure _

theorem sameControl_setPosted (tacit : env.Tacit) (vector : Nat) (posted : Bool) :
    Attempt.Respects SameControl (setPosted env vector posted) := by
  have changes {change : Table → Nat → Except Fault Table} {hook : Nat → Hook}
      (tells : ∀ handle, Action.Respects SameControl (env.notify handle (hook vector))) :
      Attempt.Respects SameControl (changeVector env change hook vector) := by
    refine .bind (.attempt fun m next changed => ?_) fun _ =>
      .lift (.bind .get fun _ => .forM tells _)
    rcases tables : change m.interrupts.table vector with fault | table <;>
      rw [tables] at changed <;> cases changed
    rfl
  cases posted with
  | true => exact changes fun handle => tacit.posted handle vector
  | false => exact changes fun handle => tacit.unposted handle vector

theorem run_writeSpmControl_of_none {value : UInt8}
    (none : StoreOperation.ofControl? value = none) (m : Machine World) :
    (writeSpmControl env value).run m =
      (setPosted env m.part.spmReady (reportsReady (value &&& ~~~operationMask))).run
        (m.modifySpm fun unit => { unit with control := value &&& ~~~operationMask }) := by
  rw [writeSpmControl, armedValue, none]
  rfl

theorem not_armed_of_no_unit (absent : m.spm = none) : ¬ m.Armed := by
  rw [Armed, spmControl, absent, not_not]
  decide

theorem not_armed_modifySpm (value : UInt8) (m : Machine World) :
    ¬ (m.modifySpm fun unit => { unit with control := value &&& ~~~operationMask }).Armed := by
  cases isUnit : m.spm with
  | none => exact not_armed_of_no_unit (by rw [modifySpm, isUnit]; rfl)
  | some unit =>
      rw [Armed, spmControl, modifySpm, isUnit, not_not]
      exact cleared_and_mask value

/-- A write of the register, wherever it begins. -/
theorem answered_writeSpmControl (upholds : env.Upholds (Answered lost)) (value : UInt8)
    (m : Machine World) : Answered lost ((writeSpmControl env value).run m).2 := by
  have posts (vector : Nat) (posted : Bool) :
      Attempt.Respects (Keeps (Answered lost)) (setPosted env vector posted) :=
    (((unitInvariant_answered lost).accord upholds).mirrors_setPosted posted trivial).keeps
  cases armed : StoreOperation.ofControl? value with
  | none =>
      rw [run_writeSpmControl_of_none armed]
      exact (posts _ _).run.related _ (.of_disarmed (not_armed_modifySpm value m))
  | some operation =>
      rw [run_writeSpmControl_of_armed armed]
      apply (posts _ _).run.related
      exact .of_awaited (awaited_schedule env rfl armedCycles _)

/-- A write that arms nothing disarms, if nobody who is told of the interrupt arms again. -/
theorem not_armed_writeSpmControl (tacit : env.Tacit) {value : UInt8}
    (none : StoreOperation.ofControl? value = none) (m : Machine World) :
    ¬ ((writeSpmControl env value).run m).2.Armed := by
  rw [run_writeSpmControl_of_none none]
  have same := (sameControl_setPosted tacit m.part.spmReady
    (reportsReady (value &&& ~~~operationMask))).run.related
      (m.modifySpm fun unit => { unit with control := value &&& ~~~operationMask })
  rw [Armed, same]
  exact not_armed_modifySpm value m

theorem not_armed_clearOperation (tacit : env.Tacit) (m : Machine World) :
    ¬ ((clearOperation env).run m).2.Armed :=
  not_armed_writeSpmControl tacit (ofControl?_cleared m.spmControl) m

/-! ### Events of the unit -/

/-- What the end of an operation establishes, whatever it begins with, every event of the unit
establishes. -/
theorem fire_establishes {P : Machine World → Prop}
    (noted : ∀ (m : Machine World) world, P m → P { m with world })
    (cleared : ∀ m, P ((clearOperation env).run m).2) (absent : ∀ m, m.spm = none → P m)
    {event : Event} (ofUnit : event.ofUnit = true) (m : Machine World) :
    P (fire env event m).2 := by
  have settles (m : Machine World) : P (settleOperation env m).2 := by
    have after := cleared m
    rw [settleOperation_eq]
    cases isUnit : m.spm with
    | none => exact absent m isUnit
    | some unit =>
        rw [if_pos Option.isSome_some]
        generalize (clearOperation env).run m = result at after ⊢
        obtain ⟨fault | _, next⟩ := result
        · exact noted next _ after
        · exact after
  induction event generalizing m with
  | spmReset => exact settles m
  | pageOperation start size contents =>
      obtain ⟨notice, completes⟩ := completePage_eq env start size contents m
      change P (completePage env start size contents m).2
      rw [completes]
      exact settles _
  | periodic handle event period inductionHypothesis => exact inductionHypothesis ofUnit _
  | outside | timeout | arrival => cases ofUnit

/-- An event of the unit disarms. -/
theorem not_armed_fire (tacit : env.Tacit) {event : Event} (ofUnit : event.ofUnit = true)
    (m : Machine World) : ¬ (fire env event m).2.Armed :=
  fire_establishes (fun _ _ => id) (not_armed_clearOperation tacit)
    (fun _ => not_armed_of_no_unit) ofUnit m

theorem answered_fire (upholds : env.Upholds (Answered lost)) {event : Event}
    (ofUnit : event.ofUnit = true) (m : Machine World) : Answered lost (fire env event m).2 :=
  fire_establishes (fun _ _ answered => ⟨answered.answered⟩)
    (fun m => answered_writeSpmControl upholds _ m)
    (fun _ absent => .of_disarmed (not_armed_of_no_unit absent)) ofUnit m

/-! ### The passing of time -/

section Time

variable (upholds : env.Upholds (Answered lost))
include upholds

theorem keeps_fire (event : Event) : Action.Respects (Keeps (Answered lost)) (fire env event) := by
  have settles : Action.Respects (Keeps (Answered lost)) (settleOperation env) :=
    ⟨fun m _ => (answered_fire upholds rfl m : Answered lost (fire env .spmReset m).2)⟩
  have settling : Settling env (Itself (Answered lost)) Eq fun _ => True :=
    { ((unitInvariant_answered lost).accord upholds).toQuietAccord with
      device := fun handle hook _ => (upholds.notify handle hook).itself
      settle := settles.itself }
  exact (settling.mirrors_fire event fun _ => (unitInvariant_answered lost).accord upholds).keeps

/-- An event of the unit in the batch makes good for whatever was before it. -/
theorem answered_batch (batch : List Event) {m : Machine World}
    (before : Answered lost m ∨ ∃ event ∈ batch, event.ofUnit = true) :
    Answered lost (batch.forM (fire env) m).2 := by
  induction batch generalizing m with
  | nil =>
      rcases before with answered | ⟨event, member, -⟩
      · exact answered
      · cases member
  | cons first rest inductionHypothesis =>
      change Answered lost (rest.forM (fire env) (fire env first m).2).2
      apply inductionHypothesis
      rcases before with answered | ⟨event, member, ofUnit⟩
      · exact .inl ((keeps_fire upholds first).related m answered)
      · rcases List.mem_cons.mp member with rfl | inRest
        · exact .inl (answered_fire upholds ofUnit m)
        · exact .inr ⟨event, inRest, ofUnit⟩

theorem keeps_deliver (bound : Nat) :
    Action.Respects (Keeps (Answered lost)) (deliver env bound) := by
  induction bound with
  | zero => exact .pure _
  | succ bound inductionHypothesis =>
      refine ⟨fun m answered => ?_⟩
      have popped := answered.popDue
      rw [deliver_succ]
      cases due : m.clock.queue.popDue.1 with
      | none =>
          rw [due] at popped
          rcases popped with kept | ⟨event, member, -⟩
          · exact kept
          · cases member
      | some batch =>
          rw [due] at popped
          exact inductionHypothesis.related _ (answered_batch upholds batch popped)

theorem keeps_advance (cycles : Nat) :
    Action.Respects (Keeps (Answered lost)) (advance env cycles) :=
  .bind (.modify fun _ answered => ⟨answered.answered⟩) fun _ => keeps_deliver upholds _

end Time

theorem standing_answered (lost : UInt8 → Prop) :
    Standing (Answered lost : Machine World → Prop) fun _ => True where
  toUnitInvariant := unitInvariant_answered lost
  pairs := .of_free fun _ => trivial
  control _ upholds value := ⟨⟨fun m _ => answered_writeSpmControl upholds value m⟩⟩
  passing _ upholds := keeps_advance upholds

/-! ### The store instruction -/

/-- The operations of which the store instruction cancels the timeout and does nothing else. -/
def CancelledOnly (control : UInt8) : Prop :=
  StoreOperation.ofControl? control = some .lockBits ∨
    StoreOperation.ofControl? control = some .enableSection

/-- What is stored to flash is awaited, and a fill is over at once. -/
theorem answered_performStore (tacit : env.Tacit) {unit : SelfProgramming}
    (isUnit : m.spm = some unit) (before : Answered CancelledOnly m) :
    Answered CancelledOnly ((performStore env unit).run m).2 := by
  have control : m.spmControl = unit.control := by
    rw [spmControl, isUnit]
    rfl
  have disarmed {act : Attempt World Unit} (same : Attempt.Respects SameControl act) :
      Attempt.Respects (Keeps fun m => ¬ m.Armed) act :=
    same.mono fun _ _ same disarmed armed => disarmed (by rwa [Armed, same] at armed)
  have cancelled (only : CancelledOnly unit.control) :
      Answered CancelledOnly (keepOperation env m).2 := by
    refine ⟨fun _ => .inr ?_⟩
    have same := (sameControl_keepOperation env).related m
    rw [same, control]
    exact only
  rw [performStore, Attempt.run_bind, Attempt.run_get]
  dsimp only
  split
  case h_1 =>
    have clears : Attempt.Ensures (fun _ => True) (clearOperation env) (fun m => ¬ m.Armed)
        fun _ m => ¬ m.Armed := .of_holds fun m _ => not_armed_clearOperation tacit m
    have rest (change : List UInt8 → List UInt8) : Attempt.Respects SameControl
        (do
          modify fun m => m.modifySpm fun unit => { unit with buffer := change unit.buffer }
          keepOperation env : Attempt World Unit) :=
      .bind (.modify fun m => spmControl_fill m change) fun _ =>
        .lift (sameControl_keepOperation env)
    have fills := clears.bind fun _ => .of_keeps (disarmed (rest fun buffer =>
      fillBuffer buffer (m.extendedZ % m.part.pageSize / 2 * 2) (m.reg 0) (m.reg 1)))
        fun _ _ => id
    exact .of_disarmed (fills.holds trivial)
  case h_2 =>
    rw [Attempt.run_bind, Attempt.run_lift]
    exact .of_awaited (awaited_schedule env rfl _ _)
  case h_3 =>
    rw [Attempt.run_bind, Attempt.run_lift]
    exact .of_awaited (awaited_schedule env rfl _ _)
  case h_4 lockBits => exact cancelled (.inl lockBits)
  case h_5 enables => exact cancelled (.inr enables)
  case h_6 => exact before

theorem keeps_storeProgram_answered (tacit : env.Tacit) :
    Attempt.Respects (Keeps (Answered CancelledOnly)) (storeProgram env) := by
  refine ⟨⟨fun m answered => ?_⟩⟩
  rw [storeProgram, Attempt.run_bind, Attempt.run_get]
  dsimp only
  cases isUnit : m.spm with
  | none => exact answered
  | some unit => exact answered_performStore tacit isUnit answered

theorem keeps_step_answered (upholds : env.Upholds (Answered CancelledOnly)) (tacit : env.Tacit) :
    Action.Respects (Keeps (Answered CancelledOnly)) (step env).run :=
  ⟨fun _ answered => (standing_answered CancelledOnly).keeps_step upholds answered fun _ =>
    keeps_storeProgram_answered tacit⟩

/-! ### The main result -/

/-- The control register holds what it held, and something of the unit that was queued still is. -/
structure LeavesArmed (m next : Machine World) : Prop where
  control : next.spmControl = m.spmControl
  awaited : m.Awaited → next.Awaited

theorem Answered.of_leavesArmed (answered : Answered lost m) (leaves : LeavesArmed m next) :
    Answered lost next := by
  refine ⟨fun armed => ?_⟩
  rw [Armed, leaves.control] at armed
  rw [leaves.control]
  exact (answered.answered armed).imp_left leaves.awaited

theorem not_armed_new (part : Part) (settings : Settings) (world : World) :
    ¬ (new part settings world).Armed := by
  obtain ⟨fill, reprogrammable, strict⟩ := settings
  cases reprogrammable with
  | false => exact not_armed_of_no_unit rfl
  | true =>
      change ¬ ((0 : UInt8) &&& operationMask ≠ 0)
      decide

/-- One step that does not execute the store instruction, or whatever else someone does. -/
inductive Proceeds (env : Environment World) (m : Machine World) : Machine World → Prop where
  | step (other : executes? env m ≠ some (.control .spm)) : Proceeds env m ((step env).run m).2
  | act {act : Action World Unit} (deed : Deed LeavesArmed (fun _ => True) (fun _ => False) act) :
      Proceeds env m (act m).2

/-- Whatever is done to a new machine, an armed operation is awaited by an event of its unit, except
that the store instruction leaves an operation on lock bits or sections armed with nothing queued.

Without that instruction nothing is excepted. A write of the control register makes sure that the
operation which it arms is awaited, and an event of the unit disarms. -/
theorem armed_operation_is_awaited
    (does : env.Does LeavesArmed (fun _ => True) fun _ => False) (tacit : env.Tacit) :
    (∀ {α : Type} {act : Action World α}, Deed LeavesArmed (fun _ => True) Environment.Tacit act →
      ∀ part settings world, let last := (act (new part settings world)).2
        last.Armed → last.Awaited ∨ CancelledOnly last.spmControl) ∧
    (∀ {m last : Machine World}, Relation.ReflTransGen (Proceeds env) m last →
      (m.Armed → m.Awaited) → last.Armed → last.Awaited) ∧
    (∀ value m, let written := ((writeSpmControl env value).run m).2
      written.Armed → written.Awaited) ∧
    ∀ event m, event.ofUnit = true → ¬ (fire env event m).2.Armed := by
  have leaves {lost : UInt8 → Prop} (m next : Machine World) (leaves : LeavesArmed m next)
      (answered : Answered lost m) := answered.of_leavesArmed leaves
  have never : Standing (Answered fun _ => False : Machine World → Prop) fun _ => True :=
    standing_answered _
  have upholds : env.Upholds (Answered fun _ => False) :=
    upholds_of_does never leaves (fun _ _ steps => steps.elim) does
  refine ⟨fun deed part settings world => ?_, fun run before => ?_, fun value m => ?_,
    fun event m ofUnit => not_armed_fire tacit ofUnit m⟩
  · have keeps := deed.keeps (standing_answered CancelledOnly) leaves
      fun _ upholds tacit => keeps_step_answered upholds tacit
    exact (keeps.related _ (.of_disarmed (not_armed_new part settings world))).answered
  · have answered : Answered (fun _ => False) _ := ⟨fun armed => .inl (before armed)⟩
    suffices reached : Answered (fun _ => False) _ from
      fun armed => (reached.answered armed).resolve_right id
    induction run with
    | refl => exact answered
    | tail _ proceeds inductionHypothesis =>
        cases proceeds with
        | step other =>
            exact never.keeps_step upholds inductionHypothesis fun executes => absurd executes other
        | act deed =>
            exact (deed.keeps never leaves fun _ _ steps => steps.elim).related _
              inductionHypothesis
  · exact fun armed => ((answered_writeSpmControl upholds value m).answered armed).resolve_right id

/-! ### An armed erasure -/

theorem tacit_silence : silence.Tacit where
  posted _ _ := .pure _
  unposted _ _ := .pure _

theorem leavesArmed_loadProgram (program : Program) (m : Machine World) :
    LeavesArmed m ((loadProgram program).run m).2 := by
  have same (flash : Flash) : LeavesArmed m { m with flash } := ⟨rfl, id⟩
  rw [loadProgram, Attempt.run_attempt]
  by_cases fits : program.size ≤ m.flash.size
  · rw [if_pos fits]
    cases m.flash.load 0 program.bytes.toList with
    | ok flash => exact same flash
    | error fault => exact same m.flash
  · rw [if_neg fits]
    exact same m.flash

/-- Load a program, arm an operation and make a step. -/
def armAndStep (first : Instr) (value : UInt8) : Action Unit Unit := do
  let _ ← (loadProgram (Program.ofInstrs [first, .control .nop])).run
  let _ ← (writeIo silence readyPart.spmControl value).run
  let _ ← (step silence).run

theorem deed_armAndStep (first : Instr) (value : UInt8) :
    Deed LeavesArmed (fun _ => True) Environment.Tacit (armAndStep first value) :=
  .andThen (.aside _ (leavesArmed_loadProgram _)) fun _ =>
    .andThen (.perform does_silence (.writeIo _ _)) fun _ =>
      .andThen (.perform does_silence (.step tacit_silence)) fun _ => .done _

/-- An erasure that is not begun is awaited by its timeout, which disarms it. -/
theorem armed_operation_is_awaited_erasure :
    let waiting := (armAndStep (.control .nop) 0x03 (new readyPart ⟨.known 0, true, false⟩ ())).2
    waiting.Armed ∧ waiting.Awaited ∧ ¬ (fire silence .spmReset waiting).2.Armed := by
  intro waiting
  have armed : waiting.Armed := by decide +kernel
  have known : ¬ CancelledOnly waiting.spmControl := by
    have control : waiting.spmControl = 0x03 := by decide +kernel
    rw [control]
    exact nofun
  obtain ⟨always, -, -, fires⟩ := armed_operation_is_awaited does_silence tacit_silence
  have answered := always (deed_armAndStep _ _) readyPart ⟨.known 0, true, false⟩ () armed
  exact ⟨armed, answered.resolve_right known, fires .spmReset waiting rfl⟩

/-! ### An armed section -/

/-- With nothing queued an armed operation stays armed, however much time passes. -/
theorem Armed.advance (armed : m.Armed) (patient : 0 < env.patience)
    (empty : m.clock.queue.links = []) (cycles : Nat) :
    (advance env cycles m).2.Armed ∧ ¬ (advance env cycles m).2.Awaited := by
  have nothing : (m.clock.queue.advance cycles).popDue =
      (none, ⟨[], m.clock.queue.count + (m.clock.queue.budget + cycles), 0⟩) := by
    rw [DeltaQueue.popDue, DeltaQueue.advance, empty]
  rw [advance_of_popDue_eq_none patient (congrArg Prod.fst nothing), nothing]
  exact ⟨armed, Nat.lt_irrefl 0⟩

/-- The store instruction leaves the section armed, and nothing that is queued will ever disarm it. -/
theorem enabled_section_stays_armed :
    let start := new readyPart ⟨.known 0, true, false⟩ ()
    let stored := (armAndStep (.control .spm) 0x11 start).2
    stored.Armed ∧ ¬ stored.Awaited ∧
      ∀ cycles, let later := (advance silence cycles stored).2
        later.Armed ∧ ¬ later.Awaited := by
  intro start stored
  have armed : stored.Armed := by decide +kernel
  have empty : stored.clock.queue.links = [] := by decide +kernel
  have unawaited : ¬ stored.Awaited := by
    rw [Awaited, DeltaQueue.countMatching, empty]
    exact Nat.lt_irrefl 0
  exact ⟨armed, unawaited, fun cycles => armed.advance (by decide) empty cycles⟩

end Machine

end Avr

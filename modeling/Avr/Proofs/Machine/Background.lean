import Avr.Proofs.Machine.Accord

/-!
Contract: the passing of time keeps two machines in accord.

Owns:
- calls of devices, and the end of an operation of self-programming, as more that an accord
  withstands;
- events, of which nothing else is known, as mirrors of themselves, timeouts where the accord
  withstands them;
- the store instruction, where the cancelled timeout and writes to the unit do not matter;
- the delivery of events, where it does not matter either what is scheduled.

A machine without a self-programming unit never comes to write the control register.
-/

namespace Avr.Machine

open Avr.Time

variable {World : Type}

/-- An accord that also withstands what devices do when they are called, and the end of an operation
of the self-programming unit. -/
structure Settling (env : Environment World) (A : Machine World → Machine World → Prop)
    (Twin : HandleList → HandleList → Prop) (Free : Nat → Prop) : Prop
    extends QuietAccord env A Twin Free where
  device : ∀ handle hook, hook.isInstrument = false →
    Action.Mirrors A (env.notify handle hook) (env.notify handle hook)
  settle : Action.Mirrors A (settleOperation env) (settleOperation env)

namespace Settling

variable {env : Environment World} {A : Machine World → Machine World → Prop}
  {Twin : HandleList → HandleList → Prop} {Free : Nat → Prop}
  (settling : Settling env A Twin Free)
include settling

theorem mirrors_completePage (start size : Nat) (contents : Option (List UInt8)) :
    Action.Mirrors A (completePage env start size contents)
      (completePage env start size contents) := by
  have rest (notice : Notice) : Action.Mirrors A
      (do Machine.note env notice; settleOperation env : Action World Unit)
      (do Machine.note env notice; settleOperation env) :=
    .bind (settling.mirrors_note notice) fun _ => settling.settle
  refine .gettingAt fun m n same => ?_
  have concur := settling.load start (contents.getD (erasedPage size)) same
  rcases loads : m.flash.load start (contents.getD (erasedPage size)) with fault | flash <;>
    rcases loads' : n.flash.load start (contents.getD (erasedPage size)) with fault' | flash' <;>
      rw [loads, loads'] at concur <;> cases concur
  · exact (rest _).agree _ _ same
  · next loaded =>
      have agree := (rest (.pageComplete (pageAction contents) start)).agree _ _ loaded
      exact ⟨agree.same, agree.accord⟩

theorem mirrors_fire (event : Event)
    (withstands : event.pauses = true → Accord env A Twin Free) :
    Action.Mirrors A (fire env event) (fire env event) := by
  induction event with
  | outside handle => exact settling.device handle .event rfl
  | periodic handle event period inductionHypothesis =>
      refine .bind ?_ fun _ => inductionHypothesis withstands
      cases pauses : (Event.periodic handle event period).pauses with
      | true => exact (withstands pauses).mirrors_schedule _ _
      | false => exact settling.mirrors_enqueue pauses _
  | timeout handle => exact (withstands rfl).mirrors_timeout
  | spmReset => exact settling.settle
  | pageOperation start size contents =>
      exact settling.mirrors_completePage start size contents
  | arrival machine source target =>
      exact settling.mirrors_completeTransition machine source target

end Settling

/-- An accord that also withstands what devices do when they are called, the cancelled timeout of the
self-programming unit, and writes to a machine's own unit. -/
structure Storing (env : Environment World) (A : Machine World → Machine World → Prop)
    (Twin : HandleList → HandleList → Prop) (Free : Nat → Prop) : Prop
    extends QuietAccord env A Twin Free where
  device : ∀ handle hook, hook.isInstrument = false →
    Action.Mirrors A (env.notify handle hook) (env.notify handle hook)
  cancel : Action.Mirrors A (unschedule env .spmReset) (unschedule env .spmReset)
  /-- The page buffer changes, but not its size if that is a page of a machine in accord. -/
  fill : ∀ {start start' m n} (change : List UInt8 → List UInt8), A start start' →
    (∀ buffer, buffer.length = start.part.pageSize →
      (change buffer).length = start.part.pageSize) → A m n →
    A (m.modifySpm fun unit => { unit with buffer := change unit.buffer })
      (n.modifySpm fun unit => { unit with buffer := change unit.buffer })
  control : ∀ {m n} value, A m n → m.spm.isSome = true →
    Attempt.Agree A (writeSpmControl env value) (writeSpmControl env value) m n

/-- An accord that the events of a queue do not matter to. -/
structure Background (env : Environment World) (A : Machine World → Machine World → Prop)
    (Twin : HandleList → HandleList → Prop) (Free : Nat → Prop) : Prop
    extends Accord env A Twin Free, Storing env A Twin Free where
  queue : ∀ {m n} queue, A m n → A (m.setQueue queue) (n.setQueue queue)

/-- Nothing more is needed if the unit does not matter, and its vector may change at any time. -/
theorem Accord.background {env : Environment World} {A : Machine World → Machine World → Prop}
    {Twin : HandleList → HandleList → Prop} {Free : Nat → Prop} (accord : Accord env A Twin Free)
    (unconcerned : Unconcerned A)
    (device : ∀ handle hook, hook.isInstrument = false →
      Action.Mirrors A (env.notify handle hook) (env.notify handle hook))
    (ready : ∀ m n, A m n → Free n.part.spmReady) : Background env A Twin Free where
  toAccord := accord
  device := device
  cancel := accord.mirrors_unschedule unconcerned.queue _
  queue := unconcerned.queue
  fill _ _ _ := unconcerned.spm _
  control _ same _ := (accord.mirrors_writeSpmControl
    (accord.mirrors_unschedule unconcerned.queue _) (fun _ => unconcerned.spm _) ready _).agree
      _ _ same

namespace Storing

variable {env : Environment World} {A : Machine World → Machine World → Prop}
  {Twin : HandleList → HandleList → Prop} {Free : Nat → Prop}
  (storing : Storing env A Twin Free) {m n : Machine World}
include storing

/-! ### Self-programming -/

theorem agree_clearOperation (same : A m n) (unit : m.spm.isSome = true) :
    Attempt.Agree A (clearOperation env) (clearOperation env) m n := by
  refine Attempt.Agree.getting ?_
  rw [(storing.akin same).spmControl]
  exact storing.control _ same unit

theorem mirrors_settleOperation :
    Action.Mirrors A (settleOperation env) (settleOperation env) := by
  refine .gettingAt fun m n same => ?_
  rw [← (storing.akin same).spm]
  split
  case isTrue unit =>
    refine .bind (storing.agree_clearOperation same unit) fun result => Action.Mirrors.agree ?_
    cases result with
    | ok _ => exact .pure _
    | error fault => exact storing.mirrors_note _
  case isFalse => exact ⟨rfl, same⟩

theorem mirrors_keepOperation : Action.Mirrors A (keepOperation env) (keepOperation env) :=
  .bind storing.cancel fun _ => .pure _

theorem agree_performStore (spmUnit : SelfProgramming) (same : A m n)
    (unit : m.spm.isSome = true) :
    Attempt.Agree A (performStore env spmUnit) (performStore env spmUnit) m n := by
  refine Attempt.Agree.getting ?_
  have akin := storing.akin same
  dsimp only
  rw [akin.part, akin.extendedZ, akin.reg, akin.reg]
  split
  case h_1 =>
    refine .bind (storing.agree_clearOperation same unit) fun _ => Attempt.Mirrors.agree ?_
    refine .bind (.modify fun _ _ => ?_) fun _ =>
      .lift (storing.mirrors_keepOperation)
    refine storing.fill (fun buffer => fillBuffer buffer _ _ _) same fun buffer length => ?_
    rwa [fillBuffer, List.length_set, List.length_set]
  case h_2 =>
    exact (Attempt.Mirrors.bind (.lift (storing.mirrors_keepOperation)) fun _ =>
      .lift (storing.mirrors_schedulePage _ _)).agree _ _ same
  case h_3 =>
    refine (Attempt.Mirrors.bind (.lift (storing.mirrors_keepOperation)) fun _ =>
      .getting fun _ _ after => ?_).agree _ _ same
    rw [(storing.akin after).spm]
    refine .bind (.modify fun _ _ => ?_) fun _ => .lift (storing.mirrors_schedulePage _ _)
    refine storing.fill (fun _ => erasedPage _) same fun _ _ => ?_
    rw [erasedPage, List.length_replicate, akin.part]
  case h_4 | h_5 =>
    exact (Attempt.Mirrors.lift (storing.mirrors_keepOperation)).agree _ _ same
  case h_6 => exact (Attempt.Mirrors.pure _).agree _ _ same

theorem mirrors_storeProgram : Attempt.Mirrors A (storeProgram env) (storeProgram env) := by
  refine .gettingAt fun m n same => ?_
  have spm := (storing.akin same).spm
  rcases units : m.spm with _ | spmUnit
  · rw [← spm, units]
    exact ⟨rfl, same⟩
  · rw [← spm, units]
    exact storing.agree_performStore spmUnit same (by rw [units]; rfl)

theorem settling : Settling env A Twin Free where
  toQuietAccord := storing.toQuietAccord
  device := storing.device
  settle := storing.mirrors_settleOperation

end Storing

namespace Background

variable {env : Environment World} {A : Machine World → Machine World → Prop}
  {Twin : HandleList → HandleList → Prop} {Free : Nat → Prop}
  (background : Background env A Twin Free)
include background

/-! ### Time -/

theorem mirrors_deliver (bound : Nat) :
    Action.Mirrors A (deliver env bound) (deliver env bound) := by
  induction bound with
  | zero => exact .pure _
  | succ bound inductionHypothesis =>
      refine .bind (.answer (fun m n same => ?_) fun m n same => ?_) fun due => ?_
      · rw [(background.akin same).clock]
      · rw [(background.akin same).clock]
        exact background.queue _ same
      · split
        · exact .pure _
        · refine .bind (.forM (fun event => ?_) _) fun _ => inductionHypothesis
          exact background.settling.mirrors_fire event fun _ => background.toAccord

theorem mirrors_advance (cycles : Nat) :
    Action.Mirrors A (advance env cycles) (advance env cycles) := by
  refine .bind (.modify fun m n same => ?_) fun _ => background.mirrors_deliver _
  rw [(background.akin same).clock]
  exact background.queue _ same

end Background

end Avr.Machine

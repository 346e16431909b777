import Avr.Proofs.Machine.Tameness

/-!
Contract: no step lets a check be skipped that something would come of.

Owns:
- the invariant between two steps across every part of a step but the check;
- the interrupt check, which may break the invariant only by failing to dispatch;
- the invariant across a step.
-/

namespace Avr.Machine

open Avr.Isa

variable {World : Type} {env : Environment World} {m : Machine World}

/-! ### Instructions -/

theorem watching_enableInterrupts (tame : env.Tame) (wellFormed : m.WellFormed) :
    (enableInterrupts env m).2.Watching := by
  refine ((tame_notifyGlobal tame rfl).related _).watching ?_
  exact ⟨(Change.allow m).wellFormed wellFormed, .inl (.inl rfl)⟩

/-- A dispatch is put off only when the next step makes the check. -/
theorem watchful_allowReturning (tame : env.Tame) (outcome : Outcome) :
    Attempt.Watchful (allowReturning env outcome) := by
  refine ⟨⟨fun m vigilant => ?_⟩⟩
  have watching := watching_enableInterrupts tame vigilant.toWellFormed
  change Vigilant { (enableInterrupts env m).2 with justReturned := true }
  exact ⟨⟨watching.table, watching.flash⟩, watching.watch.imp_right False.elim⟩

theorem vigilant_of_change (vigilant : m.Vigilant) {next : Machine World}
    (change : Change m next) : next.Vigilant :=
  Reaches.vigilant (.single change) vigilant

/-- A machine that is looked at again makes the next check. -/
theorem vigilant_of_loop (vigilant : m.Vigilant) {next : Machine World}
    (table : next.interrupts.table = m.interrupts.table) (flash : next.flash = m.flash)
    (loop : next.innerLoop = false) : next.Vigilant :=
  ⟨⟨table ▸ vigilant.table, flash ▸ vigilant.flash⟩, .inl (.inl loop)⟩

/-- Every part of a step but the check keeps a machine vigilant. -/
theorem stepwise_vigilant (tame : env.Tame) :
    Stepwise env (Itself Vigilant) Eq fun _ => True where
  toDispatching := dispatching_of_change (fun _ _ change => Reaches.vigilant (.single change)) tame
  count := fun ⟨same, vigilant⟩ =>
    ⟨same ▸ rfl, vigilant_of_change vigilant (.edit rfl rfl rfl rfl rfl)⟩
  breaking := fun ⟨same, vigilant⟩ =>
    ⟨same ▸ rfl, vigilant_of_change vigilant (.edit rfl rfl rfl rfl rfl)⟩
  spend := fun ⟨same, vigilant⟩ =>
    ⟨same ▸ rfl, vigilant_of_change vigilant (.edit rfl rfl rfl rfl rfl)⟩
  look := fun ⟨same, vigilant⟩ => ⟨same ▸ rfl, vigilant_of_loop vigilant rfl rfl rfl⟩
  halt := fun ⟨same, vigilant⟩ =>
    ⟨same ▸ rfl, vigilant_of_change vigilant (.edit rfl rfl rfl rfl rfl)⟩

theorem handles_vigilant (tame : env.Tame) (i : Instr) : Handles env (Itself Vigilant) i where
  returning _ outcome := (watchful_allowReturning tame outcome).itself
  storing _ := (tame_storeProgram tame).watchful.itself
  doze _ _ _ := fun ⟨same, vigilant⟩ => ⟨same ▸ rfl, vigilant_of_loop vigilant rfl rfl rfl⟩

theorem watchful_runInstruction (tame : env.Tame) (pc : Nat) {i : Instr}
    (inRange : i.FlagInRange) (own : HandleList) :
    Attempt.Watchful (runInstruction env pc i own) :=
  ((stepwise_vigilant tame).mirrors_runInstruction pc (.inl inRange) (handles_vigilant tame i)
    rfl).keeps

theorem mirrors_orBreak {α : Type} {A : Machine World → Machine World → Prop}
    {act act' : Attempt World α} (mirrors : Attempt.Mirrors A act act') :
    Attempt.Mirrors A (orBreak act) (orBreak act') := by
  refine .bind (.lift mirrors.run) fun result => ?_
  cases result with
  | ok value => exact .pure _
  | error fault => exact .throw _

theorem watchful_orBreak {α : Type} {act : Attempt World α} (watchful : Attempt.Watchful act) :
    Attempt.Watchful (orBreak act) :=
  (mirrors_orBreak watchful.itself).keeps

theorem run_orBreak {α : Type} (act : Attempt World α) (m : Machine World) :
    (orBreak act).run m =
      match act.run m with
      | (.ok value, next) => (.ok value, next)
      | (.error fault, next) => (.error (.failed fault), next) := by
  rw [orBreak, Attempt.run_bind, Attempt.run_lift]
  rcases act.run m with ⟨fault | value, next⟩ <;> rfl

theorem run_fetch (m : Machine World) :
    fetch.run m =
      match m.flash.fetch m.pc with
      | .ok (fetched, flash) => (.ok fetched, { m with flash })
      | .error fault => (.error fault, m) := by
  rw [fetch, Attempt.run_bind, Attempt.run_get]
  rcases fetches : m.flash.fetch m.pc with fault | ⟨fetched, flash⟩ <;>
    simp only [fetches] <;> rfl

theorem watchful_pauseAt (pc : Nat) (owed : Bool) : Attempt.Watchful (pauseAt env pc owed) := by
  refine .bind (.lift (tame_note _).watchful) fun _ => ?_
  split
  · refine .bind (.modify ?_) fun _ => .throw _
    exact fun m vigilant => vigilant_of_loop vigilant rfl rfl rfl
  · exact .throw _

def proceed (env : Environment World) (pc : Nat) (owed : Bool) : Fetched → Stepping World Unit
  | .plain i => orBreak (runInstruction env pc i [])
  | .probed i own => orBreak (runInstruction env pc i own)
  | .paused => pauseAt env pc owed

theorem watchful_proceed (tame : env.Tame) (pc : Nat) (owed : Bool) {fetched : Fetched}
    (inRange : ∀ i, Flash.delivered? fetched = some i → i.FlagInRange) :
    Attempt.Watchful (proceed env pc owed fetched) := by
  cases fetched with
  | plain i => exact watchful_orBreak (watchful_runInstruction tame pc (inRange i rfl) [])
  | probed i own => exact watchful_orBreak (watchful_runInstruction tame pc (inRange i rfl) own)
  | paused => exact watchful_pauseAt pc owed

theorem run_stepInstruction (owed : Bool) (m : Machine World) :
    (stepInstruction env owed).run m =
      match m.flash.fetch m.pc with
      | .ok (fetched, flash) => (proceed env m.pc owed fetched).run { m with flash }
      | .error fault => (.error (.failed fault), m) := by
  rw [stepInstruction, Attempt.run_bind, Attempt.run_get]
  change (orBreak fetch >>= proceed env m.pc owed).run m = _
  rw [Attempt.run_bind, run_orBreak, run_fetch]
  rcases m.flash.fetch m.pc with fault | ⟨fetched, flash⟩ <;> rfl

/-- What flash delivers is decoded, so its flag numbers are in range. -/
theorem watchful_stepInstruction (tame : env.Tame) (owed : Bool) :
    Attempt.Watchful (stepInstruction env owed) := by
  refine ⟨⟨fun m vigilant => ?_⟩⟩
  rw [run_stepInstruction]
  split
  case h_1 fetched flash fetches =>
    obtain ⟨coherent, decoded⟩ := vigilant.flash.of_fetch fetches
    have inRange : ∀ i, Flash.delivered? fetched = some i → i.FlagInRange := by
      intro i delivers
      obtain ⟨index, rfl⟩ := decoded i delivers
      exact flagInRange_decode _ _
    have programmed : Vigilant { m with flash } :=
      Reaches.vigilant (.single (.program fun _ => coherent)) vigilant
    exact (watchful_proceed tame m.pc owed inRange).run.related _ programmed
  case h_2 => exact vigilant

theorem watchful_spendDelay (tame : env.Tame) : (spendDelay env).Watchful :=
  (stepwise_vigilant tame).mirrors_spendDelay.keeps

/-! ### The interrupt check -/

/-- A part of the check that leaves a dispatch settled, however it ends. -/
theorem ensures_unowing {α : Type} {act : Attempt World α} (tame : act.Tame) :
    Attempt.Ensures Unowing act Unowing fun _ _ => True :=
  .of_keeps (tame.mono fun _ _ => Reaches.unowing) fun _ _ _ => trivial

theorem ensures_vigilant {α : Type} {act : Attempt World α} (tame : act.Tame) :
    Attempt.Ensures Vigilant act Vigilant fun _ _ => True :=
  .of_keeps tame.watchful fun _ _ _ => trivial

/-- Clearing `I` ends what the dispatched vector was waiting for. -/
theorem vigilant_disableInterrupts (tame : env.Tame) (unowing : m.Unowing) :
    (disableInterrupts env m).2.Vigilant := by
  refine ((tame_notifyGlobal tame rfl).related _).vigilant ?_
  refine ⟨⟨unowing.table, unowing.flash⟩, unowing.watch.imp_right fun settled => ?_⟩
  exact ⟨settled, fun allowed => absurd allowed Bool.false_ne_true⟩

theorem ensures_disableInterrupts (tame : env.Tame) :
    Attempt.Ensures Unowing (liftM (disableInterrupts env) : Attempt World Unit) Vigilant
      fun _ _ => True where
  completed m value next before ran := by
    rw [Attempt.run_lift] at ran
    cases ran
    exact vigilant_disableInterrupts tame before
  failed _ _ _ _ _ := trivial

theorem ensures_dispatch (tame : env.Tame) (vector : Nat) :
    Attempt.Ensures Unowing (dispatch env vector) Vigilant fun _ _ => True := by
  refine .bind (ensures_unowing .get) fun m => ?_
  refine .bind (ensures_unowing (.lift (tame_note _))) fun _ => ?_
  refine .bind (ensures_unowing (.lift (tame_beforeDispatch tame vector))) fun _ => ?_
  refine .bind (ensures_unowing .get) fun m => ?_
  refine .bind (ensures_unowing (tame_pushReturn tame _)) fun _ => ?_
  refine .bind (ensures_unowing (.modify fun _ => .edit rfl rfl rfl rfl rfl)) fun _ => ?_
  -- Only now is a vector that became pending during the dispatch no reason for a check.
  refine .bind (ensures_disableInterrupts tame) fun _ => ?_
  refine .bind (ensures_vigilant (.lift (tame_advance tame 4))) fun _ => ?_
  refine .bind (ensures_vigilant (.lift (tame_wake tame))) fun _ => ?_
  exact ensures_vigilant (.lift (tame_notifyVector tame vector rfl))

/-- The interrupt check once it is known whether it is made. -/
def checkInterrupts (env : Environment World) (check : Bool) : Attempt World Bool := do
  let m ← get
  if !check then
    return false
  else if m.justReturned then
    set { m with justReturned := false, innerLoop := false }
    return true
  else
    if m.status.i then
      match m.interrupts.table.first? with
      | some vector => dispatch env vector
      | none => pure ()
    return false

theorem run_pollInterrupts_eq_check (m : Machine World) :
    (pollInterrupts env).run m = (checkInterrupts env (takeCheck m).2).run (takeCheck m).1 := rfl

theorem Dispatching.mirrors_checkInterrupts {A : Machine World → Machine World → Prop}
    {Twin : HandleList → HandleList → Prop} {Free : Nat → Prop}
    (dispatching : Dispatching env A Twin Free)
    (returned : ∀ {m n}, A m n →
      A { m with justReturned := false, innerLoop := false }
        { n with justReturned := false, innerLoop := false })
    (check : Bool) :
    Attempt.Mirrors A (checkInterrupts env check) (checkInterrupts env check) := by
  refine .gettingAt fun m n same => ?_
  have akin := dispatching.akin same
  have flag : m.status.i = n.status.i := congrArg Status.i akin.status
  rw [akin.justReturned, akin.first?, flag]
  split
  · exact (Attempt.Mirrors.pure false).agree m n same
  · split
    · exact ⟨rfl, returned same⟩
    · refine Attempt.Mirrors.agree ?_ m n same
      dsimp only
      split
      · split
        · exact .bind (dispatching.mirrors_dispatch _) fun _ => .pure _
        · exact .pure _
      · exact .pure _

/-- A check that is made dispatches what the table offers. -/
theorem run_checkInterrupts_of_first (settled : m.justReturned = false)
    (allowed : m.status.i = true) {vector : Nat}
    (offered : m.interrupts.table.first? = some vector) :
    (checkInterrupts env true).run m =
      (do dispatch env vector; return false : Attempt World Bool).run m := by
  rw [checkInterrupts, Attempt.run_bind, Attempt.run_get]
  simp only [settled, allowed, offered]
  rfl

/-- Taking the marks of a machine that is skipped rightly. -/
theorem quiet_takeCheck (vigilant : m.Vigilant) (skipped : (takeCheck m).2 = false) :
    (takeCheck m).1.Quiet := by
  have notAlert : ¬ m.Alert := by
    intro already
    simp only [takeCheck, Interrupt.Table.takeStale, Bool.or_eq_false_iff,
      Bool.not_eq_false'] at skipped
    rcases already with loop | marked
    · simp [loop] at skipped
    · simp [marked] at skipped
  obtain ⟨settled, idle⟩ := vigilant.watch.resolve_left notAlert
  exact ⟨settled, idle⟩

theorem wellFormed_takeCheck (wellFormed : m.WellFormed) : (takeCheck m).1.WellFormed :=
  ⟨wellFormed.table.with_stale false, wellFormed.flash⟩

theorem ensures_checkInterrupts (tame : env.Tame) (check : Bool) :
    Attempt.Ensures (fun m => m.WellFormed ∧ (check = false → m.Quiet))
      (checkInterrupts env check) Vigilant fun _ _ => True := by
  refine .getting fun m holds => ?_
  obtain ⟨wellFormed, skipped⟩ := holds
  split
  case isTrue unchecked =>
    refine .pure fun start same => same ▸ ⟨wellFormed, .inr (skipped ?_)⟩
    simpa using unchecked
  case isFalse =>
    split
    case isTrue =>
      exact .bind (.set ⟨⟨wellFormed.table, wellFormed.flash⟩, .inl (.inl rfl)⟩) fun _ =>
        .pure fun _ => id
    case isFalse returned =>
      have settled : m.Settled := Bool.eq_false_iff.mpr returned
      dsimp only
      split
      case isTrue =>
        split
        case h_1 vector _ =>
          refine .bind ((ensures_dispatch tame vector).weaken ?_) fun _ => .pure fun _ => id
          exact fun start same => same ▸ ⟨wellFormed, .inr settled⟩
        case h_2 none =>
          have empty := Interrupt.Table.first?_eq_none_iff.mp none
          exact .pure fun start same => same ▸ ⟨wellFormed, .inr ⟨settled, fun _ => empty⟩⟩
      case isFalse forbidden =>
        have idle : m.status.i = true → m.interrupts.table.pending = 0 :=
          fun allowed => absurd allowed forbidden
        exact .pure fun start same => same ▸ ⟨wellFormed, .inr ⟨settled, idle⟩⟩

/-- The check leaves a vigilant machine unless a dispatch fails. -/
theorem ensures_pollInterrupts (tame : env.Tame) :
    Attempt.Ensures Vigilant (pollInterrupts env) Vigilant fun _ _ => True := by
  constructor
  · intro m value next vigilant ran
    rw [run_pollInterrupts_eq_check] at ran
    exact (ensures_checkInterrupts tame _).completed _ value next
      ⟨wellFormed_takeCheck vigilant.toWellFormed, quiet_takeCheck vigilant⟩ ran
  · exact fun _ _ _ _ _ => trivial

/-! ### Steps -/

/-- What a step leaves unless it fails. -/
def VigilantUnlessFailed (broken : Break) (next : Machine World) : Prop :=
  (∀ fault, broken ≠ .failed fault) → next.Vigilant

theorem ensures_orBreak {α : Type} {P Q : Machine World → Prop} {act : Attempt World α}
    (ensures : Attempt.Ensures P act Q fun _ _ => True) :
    Attempt.Ensures P (orBreak act) Q VigilantUnlessFailed where
  completed m value next before ran := by
    rw [run_orBreak] at ran
    rcases result : act.run m with ⟨fault | found, last⟩ <;> rw [result] at ran
    · cases ran
    · cases ran
      exact ensures.completed m _ _ before result
  failed m broken next before ran := by
    rw [run_orBreak] at ran
    rcases result : act.run m with ⟨fault | found, last⟩ <;> rw [result] at ran
    · cases ran
      exact fun notFailed => absurd rfl (notFailed fault)
    · cases ran

def finishStep (env : Environment World) (owed : Bool) : Stepping World Unit := do
  if (← get).sleeping then
    sleepOn env
  else
    stepInstruction env owed
  takeHalt

/-- The rest of a step whose check dispatches a vector. -/
theorem run_finishStep_of_dispatch {poll : Attempt World Bool} {vector : Nat} {ready : Machine World}
    (polls : poll.run m = (do dispatch env vector; return false : Attempt World Bool).run ready) :
    (orBreak poll >>= finishStep env).run m =
      (do orBreak (dispatch env vector); finishStep env false : Stepping World Unit).run ready := by
  rw [Attempt.run_bind, run_orBreak, polls, Attempt.run_bind, Attempt.run_bind, run_orBreak]
  rcases (dispatch env vector).run ready with ⟨fault | value, next⟩ <;> rfl

def stepPolling (env : Environment World) (poll : Attempt World Bool) : Stepping World Unit := do
  if (← get).state = .stopped then
    throw .stopped
  spendDelay env
  finishStep env (← orBreak poll)

theorem step_eq (env : Environment World) : step env = stepPolling env (pollInterrupts env) := rfl

/-- A machine that is not stopped spends its delay and makes the check. -/
theorem run_stepPolling (env : Environment World) (poll : Attempt World Bool)
    (m : Machine World) :
    (stepPolling env poll).run m =
      if m.state = .stopped then
        (.error .stopped, m)
      else
        (orBreak poll >>= finishStep env).run (spendDelay env m).2 := by
  rw [stepPolling, Attempt.run_bind, Attempt.run_get]
  by_cases stopped : m.state = .stopped
  · simp only [stopped, if_true]
    rfl
  · simp only [stopped, if_false]
    rfl

theorem watchful_finishStep (tame : env.Tame) (owed : Bool) :
    Attempt.Watchful (finishStep env owed) := by
  have halts : Attempt.Watchful (takeHalt : Stepping World Unit) :=
    (stepwise_vigilant tame).mirrors_takeHalt.keeps
  refine .bind .get fun m => ?_
  dsimp only
  split
  · exact .bind (.lift (stepwise_vigilant tame).mirrors_sleepOn.keeps) fun _ => halts
  · exact .bind (watchful_stepInstruction tame owed) fun _ => halts

theorem ensures_step (tame : env.Tame) :
    Attempt.Ensures Vigilant (step env) Vigilant VigilantUnlessFailed := by
  have spent (m : Machine World) : Keeps Vigilant m (spendDelay env m).2 :=
    (watchful_spendDelay tame).related m
  have checked : Attempt.Ensures Vigilant (orBreak (pollInterrupts env) >>= finishStep env)
      Vigilant VigilantUnlessFailed :=
    .bind (ensures_orBreak (ensures_pollInterrupts tame)) fun owed =>
      .of_keeps (watchful_finishStep tame owed) fun _ _ vigilant _ => vigilant
  constructor
  · intro m value next vigilant ran
    rw [step_eq, run_stepPolling] at ran
    split at ran
    · cases ran
    · exact checked.completed _ value next (spent m vigilant) ran
  · intro m broken next vigilant ran
    rw [step_eq, run_stepPolling] at ran
    split at ran
    · cases ran
      exact fun _ => vigilant
    · exact checked.failed _ broken next (spent m vigilant) ran

end Avr.Machine

import Avr.Proofs.Machine.Faults
import Avr.Proofs.Machine.Step

/-!
Contract: the work of a step, and machines that are stepped and used from outside in turns.

Owns:
- a step up to the pause that was asked for, and the ways in which it can end;
- what the parts of a step have to do for its work to keep a property and to fail only in some way,
  where jumps go to handlers and wherever instructions go on;
- what may happen to a machine over time, as long as the outside keeps a property.
-/

namespace Avr.Machine

open Avr.Isa

variable {World : Type} {env : Environment World} {P : Machine World → Prop} {F : Fault → Prop}
  {Free : Nat → Prop}

/-! ### Steps and what happens in between -/

/-- What may happen next: a step, or anything from outside that keeps a property. -/
inductive Meanwhile (env : Environment World) (P : Machine World → Prop) (m : Machine World) :
    Machine World → Prop where
  | step : Meanwhile env P m ((step env).run m).2
  | act (act : Action World Unit) (keeps : Action.Respects (Keeps P) act) :
      Meanwhile env P m (act m).2

abbrev Interlude (env : Environment World) (P : Machine World → Prop) :
    Machine World → Machine World → Prop :=
  Relation.ReflTransGen (Meanwhile env P)

theorem Interlude.keeps {m last : Machine World} (interlude : Interlude env P m last)
    (step : ∀ {m}, P m → P ((step env).run m).2) (holds : P m) : P last := by
  induction interlude with
  | refl => exact holds
  | tail _ meanwhile inductionHypothesis =>
      cases meanwhile with
      | step => exact step inductionHypothesis
      | act act keeps => exact keeps.related _ inductionHypothesis

/-! ### The work of a step -/

/-- The part of a step between the interrupt check and the pause that was asked for. -/
def labor (env : Environment World) (owed : Bool) : Stepping World Unit := do
  if (← get).sleeping then
    sleepOn env
  else
    stepInstruction env owed

/-- A step up to the pause that was asked for. -/
def work (env : Environment World) : Stepping World Unit := do
  if (← get).state = .stopped then
    throw .stopped
  spendDelay env
  labor env (← orBreak (pollInterrupts env))

theorem run_work (env : Environment World) (m : Machine World) :
    (work env).run m =
      if m.state = .stopped then
        (.error .stopped, m)
      else
        (orBreak (pollInterrupts env) >>= labor env).run (spendDelay env m).2 := by
  rw [work, Attempt.run_bind, Attempt.run_get]
  by_cases stopped : m.state = .stopped
  · simp only [stopped, if_true]
    rfl
  · simp only [stopped, if_false]
    rfl

theorem run_labor (env : Environment World) (owed : Bool) (m : Machine World) :
    (labor env owed).run m =
      if m.sleeping then (liftM (sleepOn env) : Stepping World Unit).run m
      else (stepInstruction env owed).run m := by
  rw [labor, Attempt.run_bind, Attempt.run_get]
  dsimp only
  cases m.sleeping <;> rfl

theorem run_finishStep_eq (env : Environment World) (owed : Bool) (m : Machine World) :
    (finishStep env owed).run m =
      (do labor env owed; takeHalt : Stepping World Unit).run m := by
  rw [run_finishStep, Attempt.run_bind (labor env owed), run_labor]
  split <;> exact Attempt.run_bind _ _ _

/-- A step ends with the pause that was asked for during its work. -/
theorem run_step_eq (env : Environment World) (m : Machine World) :
    (step env).run m = (do work env; takeHalt : Stepping World Unit).run m := by
  rw [step_eq, run_stepPolling, Attempt.run_bind (work env), run_work]
  split
  · rfl
  · rw [Attempt.run_bind _ (finishStep env), Attempt.run_bind _ (labor env)]
    rcases (orBreak (pollInterrupts env)).run (spendDelay env m).2 with ⟨broken | owed, polled⟩
    · rfl
    · exact (run_finishStep_eq env owed polled).trans (Attempt.run_bind _ _ _)

theorem raises_orBreak {α : Type} {F : Break → Prop} (fails : ∀ fault, F (.failed fault))
    (act : Attempt World α) : Attempt.Raises F (orBreak act) where
  completed _ _ _ _ := trivial
  failed m broken next ran := by
    rw [run_orBreak] at ran
    rcases result : act.run m with ⟨fault | value, last⟩ <;> rw [result] at ran <;> cases ran
    exact fails fault

/-- Pauses are only asked for during the work, unless a breakpoint or a stop cuts it short. -/
theorem raises_work : Attempt.Raises (fun broken => broken ≠ .timeout ∧ broken ≠ .break)
    (work env) := by
  have fails {α : Type} (act : Attempt World α) :
      Attempt.Raises (fun broken => broken ≠ .timeout ∧ broken ≠ .break) (orBreak act) :=
    raises_orBreak (fun _ => ⟨nofun, nofun⟩) act
  refine .getting fun m => ?_
  dsimp only
  split
  · exact .throw ⟨nofun, nofun⟩
  refine .bind (.of_action _) fun _ => .bind (fails _) fun owed => .getting fun m => ?_
  split
  · exact .of_action _
  refine .getting fun m => .bind (fails _) fun fetched => ?_
  cases fetched with
  | plain i => exact fails _
  | probed i own => exact fails _
  | paused =>
      refine .bind (.of_action _) fun _ => ?_
      split
      · exact .bind (.modify _) fun _ => .throw ⟨nofun, nofun⟩
      · exact .throw ⟨nofun, nofun⟩

/-- Either the work of a step is carried through, and the pause that was asked for ends it, or it is
cut short. -/
theorem step_cases {m last : Machine World} {ended : Except Break Unit}
    (ran : (step env).run m = (ended, last)) :
    (∃ worked, (work env).run m = (.ok (), worked) ∧ ended = ending worked.halt ∧
        last = { worked with halt := none }) ∨
      ∃ broken, (work env).run m = (.error broken, last) ∧ ended = .error broken ∧
        broken ≠ .timeout ∧ broken ≠ .break := by
  rw [run_step_eq, Attempt.run_bind] at ran
  rcases worked : (work env).run m with ⟨broken | value, next⟩ <;> rw [worked] at ran
  · cases ran
    exact .inr ⟨broken, rfl, rfl, raises_work.failed m broken _ worked⟩
  · dsimp only at ran
    rw [run_takeHalt] at ran
    cases ran
    exact .inl ⟨next, rfl, rfl, rfl⟩

/-- A breakpoint cuts the work short. -/
theorem run_work_of_breakpoint {m next : Machine World} {pc : Nat}
    (ran : (step env).run m = (.error (.breakpoint pc), next)) :
    (work env).run m = (.error (.breakpoint pc), next) := by
  rcases step_cases ran with ⟨worked, -, ended, -⟩ | ⟨broken, works, ended, -⟩
  · rcases halt : worked.halt with _ | cause <;> rw [halt] at ended
    · cases ended
    · cases cause <;> cases ended
  · cases ended
    exact works

/-! ### Properties of the work -/

/-- The computation keeps the property, also where it fails, which it only does with `F`. -/
abbrev Sustains (P : Machine World → Prop) (F : Fault → Prop) {α : Type}
    (act : Attempt World α) : Prop :=
  Attempt.Ensures P act P fun fault m => F fault ∧ P m

/-- The property is left, and the step ends in a fault only with `F`. -/
def FailsWith (P : Machine World → Prop) (F : Fault → Prop) (broken : Break)
    (m : Machine World) : Prop :=
  (∀ fault, broken = .failed fault → F fault) ∧ P m

theorem sustains_of_raises {α : Type} {act : Attempt World α}
    (keeps : Attempt.Respects (Keeps P) act) (raises : Attempt.Raises F act) :
    Sustains P F act where
  completed m _ next holds ran := by
    have after := keeps.run.related m holds
    rwa [ran] at after
  failed m fault next holds ran := by
    have after := keeps.run.related m holds
    rw [ran] at after
    exact ⟨raises.failed m fault next ran, after⟩

/-- What follows a computation starts from what it ends with. -/
theorem sustains_bind {α β : Type} {act : Attempt World α} {next : α → Attempt World β}
    {Q : α → Machine World → Prop} (keeps : Attempt.Respects (Keeps P) act)
    (ends : Attempt.Ends Q F act)
    (rest : ∀ value, Attempt.Ensures (fun m => P m ∧ Q value m) (next value) P
      fun fault m => F fault ∧ P m) : Sustains P F (act >>= next) where
  completed m result last holds ran := by
    obtain ⟨value, middle, begun, ran⟩ := Attempt.run_bind_eq_ok ran
    have after := keeps.run.related m holds
    rw [begun] at after
    exact (rest value).completed middle result last ⟨after, ends.completed m _ _ begun⟩ ran
  failed m fault last holds ran := by
    have after := keeps.run.related m holds
    rw [Attempt.run_bind] at ran
    rcases begun : act.run m with ⟨early | value, middle⟩ <;> rw [begun] at ran after
    · cases ran
      exact ⟨ends.failed m fault last begun, after⟩
    · exact (rest value).failed middle fault last ⟨after, ends.completed m _ _ begun⟩ ran

theorem sustains_of_action {α : Type} {act : Action World α}
    (keeps : Action.Respects (Keeps P) act) : Sustains P F (liftM act : Attempt World α) :=
  .lift keeps.related

theorem sustains_fetch
    (found : ∀ (m : Machine World) fetched flash, P m → m.flash.fetch m.pc = .ok (fetched, flash) →
      P { m with flash })
    (refused : ∀ (m : Machine World) fault, P m → m.flash.fetch m.pc = .error fault → F fault) :
    Sustains P F (fetch : Attempt World Fetched) where
  completed m fetched next holds ran := by
    rw [run_fetch] at ran
    rcases fetches : m.flash.fetch m.pc with fault | ⟨delivered, flash⟩ <;> rw [fetches] at ran <;>
      cases ran
    exact found m fetched flash holds fetches
  failed m fault next holds ran := by
    rw [run_fetch] at ran
    rcases fetches : m.flash.fetch m.pc with early | ⟨delivered, flash⟩ <;> rw [fetches] at ran <;>
      cases ran
    exact ⟨refused m fault holds fetches, holds⟩

theorem Sustains.orBreak {α : Type} {act : Attempt World α} (sustains : Sustains P F act) :
    Attempt.Ensures P (orBreak act) P (FailsWith P F) where
  completed m value next holds ran := by
    rw [run_orBreak] at ran
    rcases result : act.run m with ⟨fault | found, last⟩ <;> rw [result] at ran <;> cases ran
    exact sustains.completed m _ _ holds result
  failed m broken next holds ran := by
    rw [run_orBreak] at ran
    rcases result : act.run m with ⟨fault | found, last⟩ <;> rw [result] at ran <;> cases ran
    obtain ⟨raised, after⟩ := sustains.failed m _ _ holds result
    exact ⟨fun _ same => Break.failed.inj same ▸ raised, after⟩

/-- A step keeps and fails with what its work does, if the property does not depend on the pause that
was asked for. -/
theorem ensures_step_of_work (works : Attempt.Ensures P (work env) P (FailsWith P F))
    (halt : ∀ {m : Machine World}, P m → P { m with halt := none }) :
    Attempt.Ensures P (step env) P (FailsWith P F) := by
  have halts : Attempt.Ensures P (takeHalt : Stepping World Unit) P (FailsWith P F) := by
    refine .get fun m _ => .bind (.lift fun _ => halt) fun _ => ?_
    split
    · exact .pure fun _ => id
    all_goals exact .throw fun _ holds => ⟨fun _ same => Break.noConfusion same, holds⟩
  have whole : Attempt.Ensures P (do work env; takeHalt : Stepping World Unit) P
      (FailsWith P F) := .bind works fun _ => halts
  constructor
  · intro m value next holds ran
    exact whole.completed m value next holds ((run_step_eq env m).symm.trans ran)
  · intro m broken next holds ran
    exact whole.failed m broken next holds ((run_step_eq env m).symm.trans ran)

/-- The parts of a dispatch keep a property, and fail only with `F`. -/
structure Entering (env : Environment World) (P : Machine World → Prop) (F : Fault → Prop)
    (Free : Nat → Prop) : Prop extends Accesses env (Itself P) Eq Free where
  advances : ∀ cycles, Action.Respects (Keeps P) (advance env cycles)
  push : ∀ word, Sustains P F (pushReturn env word)
  enter : ∀ {m} vector, P m → P { m with pc := m.part.vectorAddress vector }
  wake : ∀ {m}, P m → P m.awake

/-- So do the parts of a step up to the execution of an instruction. -/
structure Polling (env : Environment World) (P : Machine World → Prop) (F : Fault → Prop)
    (Free : Nat → Prop) : Prop extends Entering env P F Free where
  fetch : Sustains P F (Machine.fetch : Attempt World Fetched)
  spend : ∀ {m}, P m → P { m with delayCycles := 0 }
  look : ∀ {m} innerLoop, P m → P { m with innerLoop }
  stale : ∀ {m} stale, P m → P (m.setTable { m.interrupts.table with stale })
  returned : ∀ {m} justReturned, P m → P { m with justReturned }

/-- So do all parts of a step. -/
structure Working (env : Environment World) (P : Machine World → Prop) (F : Fault → Prop)
    (Free : Nat → Prop) : Prop extends Polling env P F Free where
  execute : ∀ i, Sustains P F (execute env i)
  count : ∀ {m}, P m → P { m with instructionsRun := m.instructionsRun + 1 }

namespace Entering

variable (entering : Entering env P F Free)
include entering

theorem keeps_wake : Action.Respects (Keeps P) (Machine.wake env) := by
  have woken : Action.Respects (Keeps P) (modify awake : Action World Unit) :=
    .modify fun _ => entering.wake
  refine .bind .get fun m => ?_
  split
  · exact .bind .get fun _ => .bind (entering.mirrors_note _).keeps fun _ => woken
  · exact woken

theorem sustains_dispatch (vector : Nat) : Sustains P F (dispatch env vector) := by
  have enters : Sustains P F (enterHandler env vector) := by
    refine .get fun m _ => .bind (entering.push _) fun _ => ?_
    refine .bind (sustains_of_action (.modify fun _ => entering.enter vector)) fun _ => ?_
    refine .bind (sustains_of_action entering.mirrors_disableInterrupts.keeps) fun _ => ?_
    refine .bind (sustains_of_action (entering.advances 4)) fun _ => ?_
    exact .bind (sustains_of_action entering.keeps_wake) fun _ =>
      sustains_of_action (entering.mirrors_notifyVector vector rfl).keeps
  refine .get fun m _ => .bind (sustains_of_action (entering.mirrors_note _).keeps) fun _ => ?_
  exact .bind (sustains_of_action (entering.mirrors_beforeDispatch vector).keeps) fun _ => enters

end Entering

namespace Polling

variable (polling : Polling env P F Free)
include polling

theorem sustains_pollInterrupts : Sustains P F (pollInterrupts env) := by
  have takes : Action.Respects (Keeps P) (answer takeCheck : Action World Bool) :=
    ⟨fun _ holds => polling.look true (polling.stale false holds)⟩
  have looks : Sustains P F (answer takeCheck : Attempt World Bool) :=
    sustains_of_action takes
  refine .bind looks fun check => .get fun m holds => ?_
  split
  · exact .pure fun _ => id
  · split
    · refine .bind (Q := P) (.set ?_) fun _ => .pure fun _ => id
      exact polling.returned false (polling.look false holds)
    · split
      · split
        · exact .bind (polling.sustains_dispatch _) fun _ => .pure fun _ => id
        · exact .pure fun _ => id
      · exact .pure fun _ => id

theorem keeps_spendDelay : Action.Respects (Keeps P) (spendDelay env) := by
  refine .bind .get fun m => ?_
  dsimp only
  split
  · exact .bind (.modify fun _ => polling.spend) fun _ => polling.advances _
  · exact .pure _

/-- A pause never completes. -/
theorem ensures_pauseAt {Q : Machine World → Prop} (pc : Nat) (owed : Bool) :
    Attempt.Ensures P (pauseAt env pc owed) Q (FailsWith P F) := by
  have throws : Attempt.Ensures P (throw (.breakpoint pc) : Stepping World Unit) Q
      (FailsWith P F) := .throw fun _ holds => ⟨fun _ same => Break.noConfusion same, holds⟩
  refine .bind (.lift (polling.mirrors_note _).keeps.related) fun _ => ?_
  split
  · refine .bind (.lift fun m holds => ?_) fun _ => throws
    exact polling.returned true (polling.look false holds)
  · exact throws

/-- An instruction is executed between calls of instruments, and then counted. -/
theorem sustains_runInstruction {i : Instr} (executes : Sustains P F (Machine.execute env i))
    (count : ∀ {m : Machine World}, P m → P { m with instructionsRun := m.instructionsRun + 1 })
    (pc : Nat) (own : HandleList) : Sustains P F (runInstruction env pc i own) := by
  have instruments (handles : HandleList) (hook : Hook) (instrument : hook.isInstrument = true) :
      Sustains P F (liftM (notifyAll env handles hook) : Attempt World Unit) :=
    sustains_of_action (polling.instruments hook instrument rfl).keeps
  refine .get fun m _ => .bind (instruments _ _ rfl) fun _ => ?_
  refine .bind (instruments _ _ rfl) fun _ => .bind executes fun cycles => ?_
  refine .bind (sustains_of_action (polling.advances cycles)) fun _ => ?_
  refine .bind (instruments _ _ rfl) fun _ => .bind (instruments _ _ rfl) fun _ => ?_
  exact sustains_of_action (.modify fun _ => count)

section Execution

variable {Q : Machine World → Prop} {E : Break → Machine World → Prop}
  (fails : ∀ broken m, FailsWith P F broken m → E broken m)
include fails

/-- What the work of a step establishes is up to what it does instead of sleeping. -/
theorem ensures_work_of_stepInstruction
    (steps : ∀ owed, Attempt.Ensures P (stepInstruction env owed) Q E)
    (sleeps : ∀ m, P m → Q m) : Attempt.Ensures P (work env) Q E := by
  have dozes : Action.Respects (Keeps P) (sleepOn env) :=
    .bind .get fun m => .bind (polling.advances m.sleepCycles) fun _ =>
      .modify fun _ => polling.look false
  refine .get fun m _ => ?_
  dsimp only
  split
  · exact .throw fun _ holds => fails _ _ ⟨fun _ same => Break.noConfusion same, holds⟩
  refine .bind (.lift polling.keeps_spendDelay.related) fun _ => ?_
  refine .bind (polling.sustains_pollInterrupts.orBreak.imp (fun _ => id) fails) fun owed => ?_
  refine .get fun m _ => ?_
  split
  · exact .lift fun m holds => sleeps _ (dozes.related m holds)
  · exact steps owed

/-- That is, up to the instruction that it executes. -/
theorem ensures_work
    (runs : ∀ pc i own, Attempt.Ensures P (orBreak (runInstruction env pc i own)) Q E)
    (sleeps : ∀ m, P m → Q m) : Attempt.Ensures P (work env) Q E := by
  refine polling.ensures_work_of_stepInstruction fails (fun owed => ?_) sleeps
  refine .get fun m _ => .bind (polling.fetch.orBreak.imp (fun _ => id) fails) fun fetched => ?_
  cases fetched with
  | plain i => exact runs m.pc i []
  | probed i own => exact runs m.pc i own
  | paused => exact (polling.ensures_pauseAt m.pc owed).imp (fun _ => id) fails

end Execution

/-- A breakpoint ends a step before anything is executed. -/
theorem holds_of_breakpoint {m next : Machine World} {pc : Nat} (holds : P m)
    (ran : (work env).run m = (.error (.breakpoint pc), next)) : P next := by
  have ensures : Attempt.Ensures P (work env) (fun _ => True)
      fun broken m => ∀ pc, broken = .breakpoint pc → P m := by
    refine polling.ensures_work (fun _ _ failed _ _ => failed.2) (fun pc i own => ?_)
      fun _ _ => trivial
    refine ⟨fun _ _ _ _ _ => trivial, fun m broken next _ ran _ same => ?_⟩
    rw [run_orBreak] at ran
    rcases result : (runInstruction env pc i own).run m with ⟨fault | value, last⟩ <;>
      rw [result] at ran <;> cases ran
    cases same
  exact ensures.failed m _ next holds ran pc rfl

end Polling

namespace Working

variable (working : Working env P F Free)
include working

/-- The work of a step keeps what its parts keep, and fails only as they do. -/
theorem ensures_work : Attempt.Ensures P (work env) P (FailsWith P F) :=
  working.toPolling.ensures_work (fun _ _ => id)
    (fun pc i own => (working.sustains_runInstruction (working.execute i) working.count pc own).orBreak)
    fun _ => id

theorem ensures_step (halt : ∀ {m : Machine World}, P m → P { m with halt := none }) :
    Attempt.Ensures P (step env) P (FailsWith P F) :=
  ensures_step_of_work working.ensures_work halt

end Working

end Avr.Machine

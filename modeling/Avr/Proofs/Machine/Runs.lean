import Avr.Proofs.Clock.Progress
import Avr.Proofs.Flash.Breakpoints
import Avr.Proofs.Machine.Abreast
import Avr.Proofs.Machine.FlashInvariant
import Avr.Proofs.Machine.Steady

/-!
Contract: the ways to run a machine agree with each other.

Owns:
- runs for a number of steps as a recursion on that number, and one such run after another;
- machines that nobody asks to stop, without breakpoints, on which no step ends at one;
- single steps one after the other, beside a run for as many steps;
- a failed run that says it was paused, because of an execution within it.

Single steps and runs differ in what they record between steps. Nobody looks at that record on the
way, so the machines stay abreast, and they are the same again once both recorded how they ended.
-/

namespace Avr.Machine

variable {World : Type} (env : Environment World)

/-! ### Runs for a number of steps -/

/-- A stop that was asked for from outside. -/
def heedStop : Action World (Except Fault Pause) := do
  modify fun m => { m with stopRequested := false }
  stop env
  return .ok .stop

/-- The steps of a run for a number of steps, and why they end. -/
def stepUpTo : (limit : Nat) → Action World (Except Fault Pause)
  | 0 => do
    if (← get).stopRequested then
      heedStop env
    else
      return .ok .tripwire
  | limit + 1 => do
    if (← get).stopRequested then
      heedStop env
    else
      match ← (step env).run with
      | .ok () => stepUpTo limit
      | .error broken => return broken.verdict

/-- What such a run asks before every step. -/
def isBelow (limit taken : Nat) : Action World (Bool × Nat) :=
  return (taken < limit, taken + 1)

theorem isBelow_apply (limit taken : Nat) (m : Machine World) :
    isBelow limit taken m = ((decide (taken < limit), taken + 1), m) := rfl

/-- Steps are counted upwards to the limit, or downwards from what is left of it. -/
theorem runSteps_isBelow {limit taken left : Nat} (all : taken + left = limit)
    (m : Machine World) :
    (runSteps env (isBelow limit) (left + 1) taken m).1.1 = some (stepUpTo env left m).1 ∧
      (runSteps env (isBelow limit) (left + 1) taken m).2 = (stepUpTo env left m).2 := by
  induction left generalizing taken m with
  | zero =>
      have done : ¬ taken < limit := by omega
      rw [runSteps_eq, stepUpTo, Action.apply_get_bind, isBelow_apply, decide_eq_false done]
      cases m.stopRequested <;> exact ⟨rfl, rfl⟩
  | succ left inductionHypothesis =>
      have more : taken < limit := by omega
      rw [runSteps_eq, stepUpTo, Action.apply_get_bind, isBelow_apply, decide_eq_true more]
      cases m.stopRequested with
      | true => exact ⟨rfl, rfl⟩
      | false =>
          rw [if_neg Bool.false_ne_true, if_neg Bool.false_ne_true, Action.apply_bind]
          dsimp only
          rcases (step env).run m with ⟨broken | value, next⟩
          · exact ⟨rfl, rfl⟩
          · exact inductionHypothesis (by omega) next

theorem runSome_eq (limit : Nat) (m : Machine World) :
    runSome env limit m =
      conclude (some (stepUpTo env limit (m.setPause .unsuccessful)).1)
        (stepUpTo env limit (m.setPause .unsuccessful)).2 := by
  obtain ⟨verdict, reached⟩ :=
    runSteps_isBelow env (Nat.zero_add limit) (m.setPause .unsuccessful)
  rw [← verdict, ← reached]
  rfl

variable {env} {m n next middle last : Machine World}

theorem stepUpTo_zero (m : Machine World) :
    stepUpTo env 0 m = if m.stopRequested then heedStop env m else (.ok .tripwire, m) := by
  rw [stepUpTo, Action.apply_get_bind]
  cases m.stopRequested <;> rfl

theorem stepUpTo_succ (limit : Nat) (m : Machine World) :
    stepUpTo env (limit + 1) m =
      if m.stopRequested then
        heedStop env m
      else
        match (step env).run m with
        | (.ok (), next) => stepUpTo env limit next
        | (.error broken, next) => (broken.verdict, next) := by
  rw [stepUpTo, Action.apply_get_bind]
  split
  · rfl
  · rw [Action.apply_bind]
    rcases (step env).run m with ⟨broken | value, next⟩ <;> rfl

/-- Every verdict on a broken step is a fault, or a pause that the machine says it was hit by. -/
theorem hits_of_verdict {broken : Break} {pause : Pause} (verdict : broken.verdict = .ok pause)
    (m : Machine World) : (m.setPause pause).hits = true := by
  cases broken with
  | breakpoint pc | «break» | stopped | timeout =>
      cases verdict
      rfl
  | failed fault => cases verdict

/-- If nothing cut the steps short, there were as many as there could be. -/
theorem eq_tripwire_of_stepUpTo {limit : Nat} {pause : Pause}
    (ran : stepUpTo env limit m = (.ok pause, last)) (unhit : (last.setPause pause).hits = false) :
    pause = .tripwire := by
  induction limit generalizing m with
  | zero =>
      rw [stepUpTo_zero] at ran
      split at ran
      · cases ran
        cases unhit
      · cases ran
        rfl
  | succ limit inductionHypothesis =>
      rw [stepUpTo_succ] at ran
      split at ran
      · cases ran
        cases unhit
      · rcases steps : (step env).run m with ⟨broken | value, next⟩ <;> rw [steps] at ran
        · obtain ⟨verdict, rfl⟩ := Prod.mk.inj ran
          rw [hits_of_verdict verdict] at unhit
          cases unhit
        · exact inductionHypothesis ran

/-- One run after another is a run for as many steps as both. -/
theorem stepUpTo_add {first : Nat} (ran : stepUpTo env first m = (.ok .tripwire, middle))
    (second : Nat) : stepUpTo env (first + second) m = stepUpTo env second middle := by
  induction first generalizing m with
  | zero =>
      rw [stepUpTo_zero] at ran
      split at ran
      · cases ran
      · cases ran
        rw [Nat.zero_add]
  | succ first inductionHypothesis =>
      rw [stepUpTo_succ] at ran
      rw [Nat.add_right_comm, stepUpTo_succ]
      split at ran
      · cases ran
      · next unasked =>
        rw [if_neg unasked]
        rcases steps : (step env).run m with ⟨broken | value, next⟩ <;> rw [steps] at ran
        · have verdict : broken.verdict = .ok .tripwire := congrArg Prod.fst ran
          cases hits_of_verdict verdict m
        · exact inductionHypothesis ran

/-! ### Executions that end alike -/

/-- Nothing is recorded of how an execution ended. -/
def Unrecorded (m : Machine World) : Prop :=
  m.pause = .unsuccessful

/-- Two executions have the same result and leave machines abreast. These are the same if the
executions paused. They also are if they failed, unless someone who was called executed something on
his own account and left a record of that. -/
structure EndsAlike (env : Environment World) (ended ended' : RunResult × Machine World) :
    Prop where
  result : ended.1 = ended'.1
  abreast : Abreast ended.2 ended'.2
  paused : ended.1 = .paused → ended.2 = ended'.2
  alone : env.Upholds Unrecorded → ended.2 = ended'.2

theorem flashInvariant_unrecorded : FlashInvariant (Unrecorded : Machine World → Prop) where
  edit unrecorded _ pause _ := pause.trans unrecorded
  load unrecorded _ := unrecorded
  fetch unrecorded _ := unrecorded

theorem keeps_heedStop : Action.Respects (Keeps Unrecorded) (heedStop env) := by
  refine .bind (.modify fun _ => id) fun _ => .bind ?_ fun _ => .pure _
  exact .bind .get fun _ => .bind (.modify fun _ => id) fun _ => .modify fun _ => id

theorem keeps_stepUpTo (upholds : env.Upholds Unrecorded) (limit : Nat) :
    Action.Respects (Keeps Unrecorded) (stepUpTo env limit) := by
  have steps : Action.Respects (Keeps Unrecorded) (step env).run :=
    ⟨fun _ => flashInvariant_unrecorded.step upholds⟩
  induction limit with
  | zero =>
      refine .bind .get fun m => ?_
      split
      · exact keeps_heedStop
      · exact .pure _
  | succ limit inductionHypothesis =>
      refine .bind .get fun m => ?_
      split
      · exact keeps_heedStop
      · refine .bind steps fun result => ?_
        cases result with
        | ok value => exact inductionHypothesis
        | error broken => exact .pure _

section Incurious

variable (incurious : env.Incurious)
include incurious

theorem mirrors_heedStop : Action.Mirrors Abreast (heedStop env) (heedStop env) := by
  refine .bind (.modify fun m n abreast => ?_) fun _ => ?_
  · exact abreast.map fun g => { g with stopRequested := false }
  · exact .bind (inStep_abreast incurious).mirrors_stop fun _ => .pure _

theorem mirrors_stepUpTo (limit : Nat) :
    Action.Mirrors Abreast (stepUpTo env limit) (stepUpTo env limit) := by
  induction limit with
  | zero =>
      refine .getting fun m n abreast => ?_
      rw [abreast.stopRequested]
      split
      · exact mirrors_heedStop incurious
      · exact .pure _
  | succ limit inductionHypothesis =>
      refine .getting fun m n abreast => ?_
      rw [abreast.stopRequested]
      split
      · exact mirrors_heedStop incurious
      · refine .bind (inStep_abreast incurious).mirrors_step.run fun result => ?_
        cases result with
        | ok value => exact inductionHypothesis
        | error broken => exact .pure _

end Incurious

theorem endsAlike_conclude (verdict : Except Fault Pause) (abreast : Abreast m n)
    (alone : env.Upholds Unrecorded → m = n) :
    EndsAlike env (conclude (some verdict) m) (conclude (some verdict) n) := by
  cases verdict with
  | ok pause =>
      have same : m.setPause pause = n.setPause pause := abreast.eq_of_setPause pause
      exact ⟨rfl, abreast, fun _ => same, fun _ => same⟩
  | error fault => exact ⟨rfl, abreast, nofun, alone⟩

/-- A run that nothing cut short took its steps. -/
theorem stepUpTo_of_runSome {limit : Nat} (ran : runSome env limit m = (.paused, middle))
    (unhit : middle.hits = false) :
    ∃ reached, stepUpTo env limit (m.setPause .unsuccessful) = (.ok .tripwire, reached) ∧
      middle = reached.setPause .tripwire := by
  rw [runSome_eq] at ran
  obtain ⟨pause, verdict, reached⟩ := eq_of_conclude_paused (congrArg Prod.fst ran)
  rw [ran] at reached
  dsimp only at reached
  rw [reached] at unhit
  have ended : stepUpTo env limit (m.setPause .unsuccessful) =
      (.ok pause, (stepUpTo env limit (m.setPause .unsuccessful)).2) :=
    Prod.ext (Option.some.inj verdict) rfl
  obtain rfl : pause = .tripwire := eq_tripwire_of_stepUpTo ended unhit
  exact ⟨_, ended, reached⟩

/-- A run that goes on after a run ends like one that was not interrupted. -/
theorem endsAlike_runSome_add (incurious : env.Incurious) {first : Nat}
    (ran : runSome env first m = (.paused, middle)) (unhit : middle.hits = false) (second : Nat) :
    EndsAlike env (runSome env second middle) (runSome env (first + second) m) := by
  obtain ⟨reached, took, rfl⟩ := stepUpTo_of_runSome ran unhit
  rw [runSome_eq, runSome_eq, stepUpTo_add took]
  have abreast : Abreast ((reached.setPause .tripwire).setPause .unsuccessful) reached :=
    Abreast.refl reached
  have agree := (mirrors_stepUpTo incurious second).agree _ _ abreast
  rw [agree.same]
  apply endsAlike_conclude _ agree.accord
  intro upholds
  have unrecorded : reached.pause = .unsuccessful := by
    have kept := (keeps_stepUpTo upholds first).related (m.setPause .unsuccessful) rfl
    rw [took] at kept
    exact kept
  have same : (reached.setPause .tripwire).setPause .unsuccessful = reached := by
    rw [← unrecorded]
    rfl
  rw [same]

/-! ### Single steps -/

/-- A single step records how it ended. -/
def recorded : Except Break Unit × Machine World → Except Fault Unit × Machine World
  | (.ok (), next) => (.ok (), next.setPause .tripwire)
  | (.error broken, next) =>
    match broken.verdict with
    | .ok pause => (.ok (), next.setPause pause)
    | .error fault => (.error fault, next.setPause .unsuccessful)

/-- A single step beside runs: it pauses, or it fails. -/
def stepResult : Except Fault Unit × Machine World → RunResult × Machine World
  | (.ok (), last) => (.paused, last)
  | (.error fault, last) => (.failed fault, last)

theorem run_stepIn_eq (m : Machine World) :
    (stepIn env).run m = recorded ((stepThrough env).run m) := by
  rw [run_stepIn]
  rcases (stepThrough env).run m with ⟨broken | value, next⟩ <;> rfl

theorem abreast_recorded (ended : Except Break Unit × Machine World) :
    Abreast ended.2 (recorded ended).2 := by
  rcases ended with ⟨broken | value, next⟩
  · cases broken <;> exact Abreast.refl next
  · exact Abreast.refl next

/-- A single step that nothing cut short is a step that went on. -/
theorem exists_of_recorded {ended : Except Break Unit × Machine World}
    (ran : recorded ended = (.ok (), last)) (unhit : last.hits = false) :
    ∃ next, ended = (.ok (), next) ∧ last = next.setPause .tripwire := by
  rcases ended with ⟨broken | value, next⟩
  · cases verdict : broken.verdict with
    | ok pause =>
        simp only [recorded, verdict] at ran
        cases ran
        rw [hits_of_verdict verdict] at unhit
        cases unhit
    | error fault =>
        simp only [recorded, verdict] at ran
        cases ran
  · cases ran
    exact ⟨next, rfl, rfl⟩

/-- A single step that is broken, beside a run that ends with the same step. -/
theorem endsAlike_recorded (broken : Break) (abreast : Abreast m n)
    (alone : env.Upholds Unrecorded → n.pause = .unsuccessful) :
    EndsAlike env (stepResult (recorded (.error broken, m)))
      (conclude (some broken.verdict) n) := by
  cases verdict : broken.verdict with
  | ok pause =>
      simp only [recorded, verdict]
      have same : m.setPause pause = n.setPause pause := abreast.eq_of_setPause pause
      exact ⟨rfl, abreast, fun _ => same, fun _ => same⟩
  | error fault =>
      simp only [recorded, verdict]
      refine ⟨rfl, abreast, nofun, fun upholds => ?_⟩
      have same : n.setPause .unsuccessful = n := by
        rw [← alone upholds]
        rfl
      exact Eq.trans abreast same

/-- Nobody asked the machine to stop, and it has no breakpoints. -/
structure Untroubled (m : Machine World) : Prop where
  unasked : m.stopRequested = false
  unbroken : m.flash.Unbroken

theorem Abreast.untroubled (abreast : Abreast m n) (untroubled : m.Untroubled) :
    n.Untroubled :=
  ⟨abreast.stopRequested ▸ untroubled.unasked, abreast.flash ▸ untroubled.unbroken⟩

theorem flashInvariant_untroubled : FlashInvariant (Untroubled : Machine World → Prop) where
  edit untroubled flash _ asked :=
    ⟨asked.trans untroubled.unasked, flash ▸ untroubled.unbroken⟩
  load untroubled loads := ⟨untroubled.unasked, untroubled.unbroken.load loads⟩
  fetch untroubled fetches := ⟨untroubled.unasked, (untroubled.unbroken.fetch fetches).1⟩

section Upholds

variable (upholds : env.Upholds Untroubled)
include upholds

theorem Untroubled.step_ne_breakpoint (untroubled : m.Untroubled) (pc : Nat) :
    ((step env).run m).1 ≠ .error (.breakpoint pc) := by
  rw [step_eq, run_stepPolling]
  split
  case isTrue => exact nofun
  case isFalse running =>
    have polled := flashInvariant_untroubled.polled upholds untroubled
    rw [Attempt.run_bind, run_orBreak]
    rcases ran : (pollInterrupts env).run (spendDelay env m).2 with ⟨fault | owed, reached⟩
    · exact nofun
    · rw [ran] at polled
      dsimp only
      cases asleep : reached.sleeping with
      | true =>
          rw [run_finishStep, if_pos asleep, Attempt.run_bind, Attempt.run_lift]
          exact run_takeHalt_ne_breakpoint _ pc
      | false =>
          have finish := finishes env asleep owed
          generalize (finishStep env owed).run reached = ended at finish
          cases finish with
          | refused => exact nofun
          | executed => exact run_finishInstruction_ne_breakpoint _ _ _ pc
          | paused fetches => exact absurd rfl (polled.unbroken.fetch fetches).2

theorem Untroubled.run_stepIn (untroubled : m.Untroubled) :
    (stepIn env).run m = recorded ((step env).run m) := by
  rw [run_stepIn_eq, run_stepThrough_of_ne (untroubled.step_ne_breakpoint upholds)]

end Upholds

/-- So many single steps were taken one after the other, and nothing cut any of them short. -/
inductive Stepped (env : Environment World) (m : Machine World) : Nat → Machine World → Prop where
  | none : Stepped env m 0 m
  | more {count : Nat} {middle last : Machine World} (stepped : Stepped env m count middle)
      (ran : (stepIn env).run middle = (.ok (), last)) (unhit : last.hits = false) :
      Stepped env m (count + 1) last

/-- The last of the steps recorded that it went on. -/
theorem Stepped.setPause_eq {count : Nat} (stepped : Stepped env m count last)
    (some : 1 ≤ count) : last.setPause .tripwire = last := by
  cases stepped with
  | none => cases some
  | more stepped ran unhit =>
      rw [run_stepIn_eq] at ran
      obtain ⟨next, -, rfl⟩ := exists_of_recorded ran unhit
      rfl

section Both

variable (incurious : env.Incurious) (upholds : env.Upholds Untroubled)
include incurious upholds

/-- A run takes the same steps, and what is left of it begins abreast. -/
theorem Stepped.exists_abreast {count : Nat} (stepped : Stepped env m count last)
    (untroubled : m.Untroubled) :
    ∃ reached, Abreast last reached ∧ last.Untroubled ∧ ∀ rest,
      stepUpTo env (count + rest) (m.setPause .unsuccessful) = stepUpTo env rest reached := by
  induction stepped with
  | none =>
      refine ⟨m.setPause .unsuccessful, Abreast.refl m, untroubled, fun rest => ?_⟩
      rw [Nat.zero_add]
  | @more count middle last stepped ran unhit inductionHypothesis =>
      obtain ⟨reached, abreast, untroubled, runs⟩ := inductionHypothesis
      have unasked := (abreast.untroubled untroubled).unasked
      rw [untroubled.run_stepIn upholds] at ran
      obtain ⟨next, steps, rfl⟩ := exists_of_recorded ran unhit
      have kept := flashInvariant_untroubled.step upholds untroubled
      obtain ⟨same, after⟩ := (inStep_abreast incurious).mirrors_step.agree _ _ abreast
      rcases steps' : (step env).run reached with ⟨result, next'⟩
      rw [steps] at same after kept
      rw [steps'] at same after
      obtain rfl : .ok () = result := same
      refine ⟨next', after, Abreast.untroubled (Abreast.refl next) kept, fun rest => ?_⟩
      rw [Nat.add_right_comm, Nat.add_assoc, runs, stepUpTo_succ, unasked, steps']
      rfl

/-- A run for as many steps goes as far. -/
theorem Stepped.runSome_eq {count : Nat} (stepped : Stepped env m count last)
    (untroubled : m.Untroubled) :
    runSome env count m = (.paused, last.setPause .tripwire) := by
  obtain ⟨reached, abreast, settled, runs⟩ :=
    stepped.exists_abreast incurious upholds untroubled
  have ended : stepUpTo env count (m.setPause .unsuccessful) = (.ok .tripwire, reached) := by
    have all := runs 0
    rw [Nat.add_zero, stepUpTo_zero, (abreast.untroubled settled).unasked] at all
    exact all
  rw [Machine.runSome_eq, ended]
  exact congrArg (Prod.mk RunResult.paused) (abreast.symm.eq_of_setPause .tripwire)

/-- A run for more steps ends with the first step that is cut short. -/
theorem Stepped.endsAlike {count limit : Nat} (stepped : Stepped env m count middle)
    (untroubled : m.Untroubled) (more : count < limit) {result : Except Fault Unit}
    (ran : (stepIn env).run middle = (result, last))
    (cut : result = .ok () → last.hits = true) :
    EndsAlike env (stepResult (result, last)) (runSome env limit m) := by
  obtain ⟨reached, abreast, settled, runs⟩ :=
    stepped.exists_abreast incurious upholds untroubled
  have unasked := (abreast.untroubled settled).unasked
  obtain ⟨rest, rfl⟩ : ∃ rest, limit = count + (rest + 1) := ⟨limit - count - 1, by omega⟩
  have alone (upholds : env.Upholds Unrecorded) :
      (stepUpTo env (count + (rest + 1)) (m.setPause .unsuccessful)).2.pause = .unsuccessful :=
    (keeps_stepUpTo upholds _).related (m.setPause .unsuccessful) rfl
  rw [settled.run_stepIn upholds] at ran
  obtain ⟨same, after⟩ := (inStep_abreast incurious).mirrors_step.agree _ _ abreast
  rcases steps : (step env).run middle with ⟨broken | value, next⟩
  · rcases steps' : (step env).run reached with ⟨result', next'⟩
    rw [steps, steps'] at same after
    obtain rfl : .error broken = result' := same
    have ended : stepUpTo env (count + (rest + 1)) (m.setPause .unsuccessful) =
        (broken.verdict, next') := by
      rw [runs, stepUpTo_succ, unasked, steps']
      rfl
    rw [ended] at alone
    rw [steps] at ran
    rw [← ran, Machine.runSome_eq, ended]
    exact endsAlike_recorded broken after alone
  -- A step that goes on is recorded as one that nothing cut short.
  · rw [steps] at ran
    cases ran
    cases cut rfl

end Both

/-! ### A step within a step -/

theorem Untroubled.stepIn (upholds : env.Upholds Untroubled) (untroubled : m.Untroubled) :
    ((Machine.stepIn env).run m).2.Untroubled := by
  rw [untroubled.run_stepIn upholds]
  apply (abreast_recorded ((step env).run m)).untroubled
  exact flashInvariant_untroubled.step upholds untroubled

theorem mirrors_stepIn (incurious : env.Incurious) :
    Attempt.Mirrors Abreast (stepIn env) (stepIn env) := by
  have steps := (inStep_abreast incurious).mirrors_step
  have through : Attempt.Mirrors Abreast (stepThrough env) (stepThrough env) := by
    apply steps.tryCatch
    intro broken
    cases broken with
    | breakpoint pc => exact steps
    | «break» | stopped | timeout | failed fault => exact .throw _
  refine .bind (.lift through.run) fun result => ?_
  cases result with
  | ok value => exact .modify fun _ _ abreast => abreast
  | error broken =>
      dsimp only
      cases broken.verdict with
      | ok pause => exact .modify fun _ _ abreast => abreast
      | error fault => exact .bind (.modify fun _ _ abreast => abreast) fun _ => .throw fault

theorem incurious_silence : silence.Incurious where
  notify _ _ := .pure _
  readDevice _ := .pure _
  writeDevice _ _ := .pure _
  readDeviceBit _ _ := .pure _
  writeDeviceBit _ _ _ := .pure _

/-- Before every instruction a probe takes a step elsewhere, which times out. -/
def digressing : Environment Unit :=
  { silence with
    notify := fun _ hook =>
      match hook with
      | .beforeInstruction pc => do
        modify fun m => { m with pc := 6 }
        timeout silence
        let _ ← (stepIn silence).run
        modify fun m => { m with pc }
      | _ => return }

theorem incurious_digressing : digressing.Incurious where
  notify _ hook := by
    unfold digressing
    dsimp only
    split
    · refine .bind (.modify fun _ _ abreast => ?_) fun _ => ?_
      · exact abreast.map fun g => { g with pc := _ }
      · refine .bind (accord_abreast incurious_silence).mirrors_timeout fun _ => ?_
        refine .bind (mirrors_stepIn incurious_silence).run fun _ => ?_
        exact .modify fun _ _ abreast => abreast.map fun g => { g with pc := _ }
    · exact .pure _
  readDevice _ := .pure _
  writeDevice _ _ := .pure _
  readDeviceBit _ _ := .pure _
  writeDeviceBit _ _ _ := .pure _

theorem upholds_digressing : digressing.Upholds Untroubled where
  notify _ hook := by
    unfold digressing
    dsimp only
    split
    · have moves (pc : Nat) : Action.Respects (Keeps Untroubled)
          (modify fun m => { m with pc } : Action Unit Unit) :=
        .modify fun _ untroubled => ⟨untroubled.unasked, untroubled.unbroken⟩
      have steps : Action.Respects (Keeps Untroubled) (stepIn silence).run :=
        ⟨fun _ untroubled => untroubled.stepIn (within_silence (R := Keeps _))⟩
      refine .bind (moves _) fun _ => .bind ?_ fun _ => .bind steps fun _ => moves _
      exact ⟨fun _ untroubled => ⟨untroubled.unasked, untroubled.unbroken⟩⟩
    · exact .pure _
  readDevice _ := .pure _
  writeDevice _ _ := .pure _
  readDeviceBit _ _ := .pure _
  writeDeviceBit _ _ _ := .pure _

/-- A machine with a program and a probe. -/
def withProbe (program : List Isa.Instr) : Machine Unit :=
  let start := new smallPart ⟨.known 0, false, false⟩ ()
  { ((loadProgram (.ofInstrs program)).run start).2 with probes := [⟨0⟩] }

/-! ### The main result -/

/-- The ways to run a machine agree, as long as nobody who is called asks how the last execution
ended. A run that nothing cut short may be followed by another one: they end like a single run for
as many steps as both. On a machine without breakpoints that nobody asks to stop, as many single
steps come to the same as a run if nothing cuts them short, and a run ends with the first of them
that fails or is cut short.

The machines are the same at the end, but for two cases. If executions fail within which others were
made by those who are called, a run leaves the record of the last of these as it is. And a run of no
steps records that nothing cut it short, while to execute no single step leaves the record as it is. -/
theorem run_methods_agree (incurious : env.Incurious) :
    (∀ (m middle : Machine World) (first second : Nat),
      runSome env first m = (.paused, middle) → middle.hits = false →
        EndsAlike env (runSome env second middle) (runSome env (first + second) m)) ∧
    ∀ m : Machine World, env.Upholds Untroubled → m.Untroubled →
      (∀ count last, Stepped env m count last →
        runSome env count m = (.paused, last.setPause .tripwire) ∧
          (1 ≤ count → last.setPause .tripwire = last)) ∧
      ∀ count middle limit result last, Stepped env m count middle → count < limit →
        (stepIn env).run middle = (result, last) → (result = .ok () → last.hits = true) →
          EndsAlike env (stepResult (result, last)) (runSome env limit m) := by
  constructor
  · intro m middle first second ran unhit
    exact endsAlike_runSome_add incurious ran unhit second
  · intro m upholds untroubled
    constructor
    · intro count last stepped
      exact ⟨stepped.runSome_eq incurious upholds untroubled, stepped.setPause_eq⟩
    · intro count middle limit result last stepped more ran cut
      exact stepped.endsAlike incurious upholds untroubled more ran cut

/-- Two steps and another one are three steps, a single one is a run for one step, and a longer run
ends with the step that fails. -/
theorem run_methods_agree_digressing :
    let strolling := withProbe [.control .nop, .control .nop, .control .nop, .control .nop]
    let stumbling := withProbe [.control .nop, .control .eijmp, .control .nop, .control .nop]
    let second := ((stepIn digressing).run stumbling).2
    EndsAlike digressing (runSome digressing 1 (runSome digressing 2 strolling).2)
        (runSome digressing 3 strolling) ∧
      runSome digressing 1 strolling = (.paused, ((stepIn digressing).run strolling).2) ∧
      EndsAlike digressing (stepResult ((stepIn digressing).run second))
        (runSome digressing 5 stumbling) := by
  intro strolling stumbling second
  obtain ⟨followed, steps⟩ := run_methods_agree incurious_digressing
  have stepped (m : Machine Unit) (completes : ((stepIn digressing).run m).1.isOk = true)
      (unhit : ((stepIn digressing).run m).2.hits = false) :
      Stepped digressing m 1 ((stepIn digressing).run m).2 := by
    apply Stepped.none.more _ unhit
    rcases ran : (stepIn digressing).run m with ⟨fault | value, next⟩
    · rw [ran] at completes
      cases completes
    · rfl
  refine ⟨?_, ?_, ?_⟩
  · exact followed strolling _ 2 1 (Prod.ext (by decide +kernel) rfl) (by decide +kernel)
  · obtain ⟨same, -⟩ := steps strolling upholds_digressing ⟨by decide +kernel, by decide +kernel⟩
    have once := stepped strolling (by decide +kernel) (by decide +kernel)
    obtain ⟨ended, unchanged⟩ := same 1 _ once
    rw [ended, unchanged (Nat.le_refl 1)]
  · obtain ⟨-, ends⟩ := steps stumbling upholds_digressing ⟨by decide +kernel, by decide +kernel⟩
    have failed : ((stepIn digressing).run second).1.isOk = false := by decide +kernel
    apply ends 1 second 5 ((stepIn digressing).run second).1 ((stepIn digressing).run second).2
    · exact stepped stumbling (by decide +kernel) (by decide +kernel)
    · decide
    · rfl
    · intro completes
      rw [completes] at failed
      cases failed

/-- The first step fails, and the machine says that nothing cut it short. A run for one step fails
with it, but the machine says that a timeout did. -/
theorem failed_run_reports_earlier_timeout :
    let m := withProbe [.control .eijmp, .control .nop, .control .nop, .control .nop]
    let fault := Fault.unimplemented 0 0x9419 "EIJMP"
    digressing.Incurious ∧ digressing.Upholds Untroubled ∧ m.Untroubled ∧
      (stepResult ((stepIn digressing).run m)).1 = .failed fault ∧
      (runSome digressing 1 m).1 = .failed fault ∧
      ((stepIn digressing).run m).2.hitTimeout = false ∧
      (runSome digressing 1 m).2.hitTimeout = true := by
  intro m fault
  refine ⟨incurious_digressing, upholds_digressing, ?_, ?_⟩
  · exact ⟨by decide +kernel, by decide +kernel⟩
  · exact ⟨by decide +kernel, by decide +kernel, by decide +kernel, by decide +kernel⟩

end Avr.Machine

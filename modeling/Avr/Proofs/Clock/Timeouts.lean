import Avr.Proofs.Clock.Progress
import Avr.Proofs.Clock.Punctual
import Avr.Proofs.Clock.Regular
import Avr.Proofs.Machine.Steady

/-!
Contract: timeouts pause a run on time.

Owns:
- a queued timeout up to the cycle in which it expires, without another one before it, and the pause
  that it asks for then;
- the steps of a run until then, and how the run ends;
- the pause that a breakpoint puts off to the next run.

A timeout asks for a pause inside of a step, which takes the pause at its end or, at a breakpoint,
leaves it to the next one.
-/

namespace Avr.Machine

open Avr.Isa Avr.Time

variable {World : Type} {env : Environment World} {entry : Entry Event} {handle : Handle}
  {m next : Machine World}

/-! ### Until the timeout expires -/

/-- The event is queued for a later cycle. -/
def Outstanding (entry : Entry Event) (m : Machine World) : Prop :=
  entry ∈ m.clock.queue.agenda.entries ∧ m.cycles < entry.time

/-- The time of the event has come, and a pause was asked for. -/
def Expired (entry : Entry Event) (m : Machine World) : Prop :=
  m.halt.isSome ∧ entry.time ≤ m.cycles

/-- Before the cycle of the event no pause is asked for by a timeout, and none is queued. -/
def Unrivalled (entry : Entry Event) (m : Machine World) : Prop :=
  entry.time ≤ m.cycles ∨ (m.halt ≠ some .timeout ∧
    ∀ other ∈ m.clock.queue.agenda.entries, other.event.pauses = true → entry.time ≤ other.time)

/-- What is queued is in order, and no timeout comes before the event. -/
structure Alone (entry : Entry Event) (m : Machine World) : Prop where
  tidy : DeltaQueue.Tidy m.clock.queue.links
  unrivalled : m.Unrivalled entry

/-- The timeout is outstanding, or it has expired, without another one before it. -/
structure Awaiting (entry : Entry Event) (m : Machine World) : Prop extends Alone entry m where
  due : m.Outstanding entry ∨ m.Expired entry

/-- The same while the rest of a batch is handed out: if this is before the timeout expires, it asks
for no pause. -/
structure Handing (entry : Entry Event) (batch : List Event) (m : Machine World) : Prop
    extends Alone entry m where
  calm : entry.time ≤ m.cycles ∨ ∀ event ∈ batch, event.pauses = false
  due : (m.Outstanding entry ∨ m.Expired entry) ∨ entry.event ∈ batch ∧ m.cycles = entry.time

namespace Punctual

variable (punctual : Punctual entry m next)
include punctual

theorem cycles : next.cycles = m.cycles :=
  punctual.count

theorem outstanding (tidy : DeltaQueue.Tidy m.clock.queue.links) (before : m.Outstanding entry) :
    next.Outstanding entry :=
  ⟨punctual.kept tidy before.1, punctual.cycles ▸ before.2⟩

theorem expired (before : m.Expired entry) : next.Expired entry :=
  ⟨punctual.asked before.1, punctual.cycles ▸ before.2⟩

end Punctual

namespace Alone

theorem of_muted (alone : m.Alone entry) (muted : Muted entry m next) : next.Alone entry where
  tidy := muted.tidy alone.tidy
  unrivalled := by
    refine alone.unrivalled.imp (fun reached => muted.cycles ▸ reached) ?_
    intro ⟨quiet, later⟩
    refine ⟨mt muted.mute quiet, fun other member pauses => ?_⟩
    exact later other (muted.rivals alone.tidy other member pauses) pauses

/-- Time passes up to what is handed out, at most: before the timeout expires, this is none. -/
theorem popDue (alone : m.Alone entry) :
    (m.setQueue m.clock.queue.popDue.2).Alone entry ∧
      (entry.time ≤ m.clock.queue.popDue.2.count ∨
        ∀ event ∈ m.clock.queue.popDue.1.getD [], event.pauses = false) := by
  have tidy := DeltaQueue.tidy_perform .popDue alone.tidy
  by_cases reached : entry.time ≤ m.clock.queue.popDue.2.count
  · exact ⟨⟨tidy, .inl reached⟩, .inl reached⟩
  · have forward : m.cycles ≤ m.clock.queue.popDue.2.count :=
      DeltaQueue.count_le_perform .popDue m.clock.queue
    obtain ⟨quiet, later⟩ :=
      alone.unrivalled.resolve_left fun before => reached (before.trans forward)
    rw [m.clock.queue.entries_popDue] at later
    refine ⟨⟨tidy, .inr ⟨quiet, fun other member => ?_⟩⟩, .inr fun event member => ?_⟩
    · exact later other (List.mem_append_right _ member)
    · refine Bool.eq_false_of_not_eq_true fun pauses => reached ?_
      exact later _ (List.mem_append_left _ (List.mem_map_of_mem member)) pauses

end Alone

/-- The timeout is handed out in its own cycle, or stays ahead. -/
theorem Awaiting.popDue (awaiting : m.Awaiting entry) :
    (m.setQueue m.clock.queue.popDue.2).Handing entry (m.clock.queue.popDue.1.getD []) := by
  obtain ⟨alone, calm⟩ := awaiting.toAlone.popDue
  refine ⟨alone, calm, ?_⟩
  rcases awaiting.due with ⟨queued, -⟩ | ⟨asked, reached⟩
  · rw [m.clock.queue.entries_popDue] at queued
    rcases List.mem_append.mp queued with handed | left
    · obtain ⟨event, member, rfl⟩ := List.mem_map.mp handed
      exact .inr ⟨member, rfl⟩
    · refine .inl (.inl ⟨left, ?_⟩)
      change m.clock.queue.popDue.2.count < entry.time
      rcases due : m.clock.queue.popDue.1 with _ | batch
      · have beyond := DeltaQueue.horizon_lt_of_popDue_eq_none due entry
          (m.clock.queue.entries_popDue ▸ List.mem_append_right _ left)
        rw [← timeless_popDue m] at beyond
        exact Nat.lt_of_le_of_lt (Nat.le_add_right _ _) beyond
      · obtain ⟨head, rest, links, -, popped⟩ := popDue_some due
        rw [popped] at left ⊢
        exact DeltaQueue.lt_time_of_mem_timeline (links ▸ awaiting.tidy).2 left
  · refine .inl (.inr ⟨asked, ?_⟩)
    exact Nat.le_trans reached (DeltaQueue.count_le_perform .popDue m.clock.queue)

theorem Handing.awaiting (handing : m.Handing entry []) : m.Awaiting entry :=
  ⟨handing.toAlone, handing.due.resolve_right fun ⟨member, _⟩ => List.not_mem_nil member⟩

/-- A step may begin: no pause was asked for before the timeout. -/
structure Underway (entry : Entry Event) (m : Machine World) : Prop extends Alone entry m where
  ahead : m.Outstanding entry
  quiet : m.halt = none
  running : m.state ≠ .stopped

theorem Underway.awaiting (underway : m.Underway entry) : m.Awaiting entry :=
  ⟨underway.toAlone, .inl underway.ahead⟩

/-- A pause was asked for by a timeout, and not yet taken. -/
structure Overdue (m : Machine World) : Prop where
  asked : m.halt = some .timeout
  running : m.state ≠ .stopped

theorem overdue_of_halts (asked : m.halt.isSome) (halts : m.Halted → m.state = .stopped)
    (running : m.state ≠ .stopped) : m.Overdue := by
  refine ⟨?_, running⟩
  have going : ¬ m.Halted := mt halts running
  cases halt : m.halt with
  | none => rw [halt] at asked; cases asked
  | some cause =>
      cases cause with
      | timeout => rfl
      | stop => exact absurd (.inl halt) going
      | «break» => exact absurd (.inr halt) going

section Within

variable (within : env.Within (Punctual entry)) (own : entry.event = .timeout handle)
include within own

omit within in
theorem other_of_timeout : entry.event ≠ .spmReset := by
  rw [own]
  exact nofun

/-! ### The passing of time -/

omit within in
/-- The timeout asks for a pause, unless one was asked for before. -/
theorem asked_fire (m : Machine World) : (fire env entry.event m).2.halt.isSome := by
  rw [own]
  change (m.halt.or (some .timeout)).isSome
  cases m.halt <;> rfl

section Upheld

variable (upholds : env.Upholds (Unrivalled entry))
include upholds

theorem abiding_alone : Abiding env entry (Alone entry) where
  muted _ _ muted alone := alone.of_muted muted
  upholds := (within.and upholds).mono fun _ _ ⟨punctual, upheld⟩ alone =>
    ⟨punctual.tidy alone.tidy, upheld alone.unrivalled⟩
  other := other_of_timeout own

/-- An event of the batch fires: before the timeout expires, it is none itself. -/
theorem handing_fire {first : Event} {rest : List Event}
    (handing : m.Handing entry (first :: rest)) :
    (fire env first m).2.Handing entry rest := by
  have punctual : Punctual entry m (fire env first m).2 :=
    (punctual_fire within (other_of_timeout own) first).related m
  have alone : (fire env first m).2.Alone entry := by
    rcases handing.calm with reached | calm
    · exact ⟨punctual.tidy handing.tidy, .inl (punctual.cycles ▸ reached)⟩
    · have fires := (abiding_alone within own upholds).keeps_fire (calm first List.mem_cons_self)
      exact fires.related m handing.toAlone
  refine ⟨alone, handing.calm.imp (fun reached => punctual.cycles ▸ reached) ?_, ?_⟩
  · exact fun calm event member => calm event (List.mem_cons_of_mem first member)
  · rcases handing.due with due | ⟨member, reached⟩
    · exact .inl (due.imp (punctual.outstanding handing.tidy) punctual.expired)
    · rcases List.mem_cons.mp member with rfl | later
      · have expired : (fire env entry.event m).2.Expired entry :=
          ⟨asked_fire own m, Nat.le_of_eq (reached.symm.trans punctual.cycles.symm)⟩
        exact .inl (.inr expired)
      · exact .inr ⟨later, punctual.cycles.trans reached⟩

theorem awaiting_batch {batch : List Event} (handing : m.Handing entry batch) :
    (batch.forM (fire env) m).2.Awaiting entry := by
  induction batch generalizing m with
  | nil => exact handing.awaiting
  | cons first rest inductionHypothesis =>
      exact inductionHypothesis (handing_fire within own upholds handing)

theorem awaiting_deliver (bound : Nat) (awaiting : m.Awaiting entry) :
    (deliver env bound m).2.Awaiting entry := by
  induction bound generalizing m with
  | zero => exact awaiting
  | succ bound inductionHypothesis =>
      have handing := awaiting.popDue
      rcases due : m.clock.queue.popDue.1 with _ | batch <;> rw [due] at handing
      · rw [deliver_of_none due]
        exact handing.awaiting
      · rw [deliver_of_some due]
        exact inductionHypothesis (awaiting_batch within own upholds handing)

theorem working_awaiting : Working env (Awaiting entry) (fun _ => True) fun _ => True := by
  have alone := abiding_alone within own upholds
  have abiding : Abiding env entry (Awaiting entry) :=
    { muted := fun _ _ muted awaiting =>
        ⟨awaiting.toAlone.of_muted muted,
          awaiting.due.imp (muted.outstanding awaiting.tidy) muted.expired⟩
      upholds := (within.and alone.upholds).mono fun _ _ ⟨punctual, upheld⟩ awaiting =>
        ⟨upheld awaiting.toAlone,
          awaiting.due.imp (punctual.outstanding awaiting.tidy) punctual.expired⟩
      other := other_of_timeout own }
  have advances (cycles : Nat) : Action.Respects (Keeps (Awaiting entry)) (advance env cycles) :=
    ⟨fun _ awaiting => awaiting_deliver within own upholds env.patience
      ⟨⟨awaiting.tidy, awaiting.unrivalled⟩, awaiting.due⟩⟩
  exact abiding.working advances fun _ awaiting =>
    ⟨⟨awaiting.tidy, awaiting.unrivalled⟩, awaiting.due⟩

end Upheld

/-! ### Steps -/

namespace Underway

variable (upholds : env.Upholds (Unrivalled entry)) (underway : m.Underway entry)
include upholds underway

theorem awaiting_of_work {worked : Machine World} (works : (work env).run m = (.ok (), worked)) :
    worked.Awaiting entry ∧ (worked.state = .stopped → worked.Halted) :=
  ⟨(working_awaiting within own upholds).ensures_work.completed m () worked underway.awaiting works,
    (working_stops within (other_of_timeout own)).ensures_work.completed m () worked
      (fun stopped => absurd stopped underway.running) works⟩

/-- A step that goes on has not come to the timeout. -/
theorem step_ok (ran : (step env).run m = (.ok (), next)) : next.Underway entry := by
  rcases step_cases ran with ⟨worked, works, ended, rfl⟩ | ⟨broken, -, ended, -⟩
  · obtain ⟨awaiting, stops⟩ := underway.awaiting_of_work within own upholds works
    have quiet : none = worked.halt := ending_injective ended
    have ahead : worked.Outstanding entry :=
      awaiting.due.resolve_right fun ⟨asked, _⟩ => by rw [← quiet] at asked; cases asked
    have unrivalled : ({ worked with halt := none } : Machine World).Unrivalled entry :=
      awaiting.unrivalled.imp_right fun ⟨_, later⟩ => ⟨nofun, later⟩
    exact ⟨⟨awaiting.tidy, unrivalled⟩, ahead, rfl, mt stops (not_halted_of_none quiet.symm)⟩
  · cases ended

/-- A step that a timeout ends leaves the processor going. It was this timeout. -/
theorem step_timeout (ran : (step env).run m = (.error .timeout, next)) :
    next.state ≠ .stopped ∧ entry.time ≤ next.cycles := by
  rcases step_cases ran with ⟨worked, works, ended, rfl⟩ | ⟨broken, -, ended, others, -⟩
  · obtain ⟨awaiting, stops⟩ := underway.awaiting_of_work within own upholds works
    have asked : some .timeout = worked.halt := ending_injective ended
    have reached : entry.time ≤ worked.cycles :=
      awaiting.unrivalled.resolve_right fun ⟨quiet, _⟩ => quiet asked.symm
    exact ⟨mt stops (not_halted_of_timeout asked.symm), reached⟩
  · cases ended
    exact absurd rfl others

/-- A breakpoint that ends the step of the timeout leaves the pause that it asked for. -/
theorem step_breakpoint {pc : Nat} (ran : (step env).run m = (.error (.breakpoint pc), next))
    (reached : entry.time ≤ next.cycles) (running : next.state ≠ .stopped) : next.Overdue := by
  have works := run_work_of_breakpoint ran
  have awaiting : next.Awaiting entry :=
    (working_awaiting within own upholds).toPolling.holds_of_breakpoint underway.awaiting works
  have expired : next.Expired entry :=
    awaiting.due.resolve_left fun ahead => Nat.not_lt.mpr reached ahead.2
  have halts : next.Halted → next.state = .stopped :=
    (polling_halts within (other_of_timeout own)).holds_of_breakpoint
      (fun halted => absurd halted (not_halted_of_none underway.quiet)) works
  exact overdue_of_halts expired.1 halts running

end Underway

namespace Overdue

variable (overdue : m.Overdue)
include overdue

/-- The pause that is owed ends the next step. -/
theorem step_ne_ok : (step env).run m ≠ (.ok (), next) := by
  intro ran
  rcases step_cases ran with ⟨worked, works, ended, -⟩ | ⟨broken, -, ended, -⟩
  · have asked : worked.halt.isSome :=
      (working_asked within (other_of_timeout own)).ensures_work.completed m () worked
        (by rw [overdue.asked]; rfl) works
    rw [← (ending_injective ended : none = worked.halt)] at asked
    cases asked
  · cases ended

theorem step_timeout (ran : (step env).run m = (.error .timeout, next)) :
    next.state ≠ .stopped := by
  rcases step_cases ran with ⟨worked, works, ended, rfl⟩ | ⟨broken, -, ended, others, -⟩
  · have stops : worked.state = .stopped → worked.Halted :=
      (working_stops within (other_of_timeout own)).ensures_work.completed m () worked
        (fun stopped => absurd stopped overdue.running) works
    have asked : some .timeout = worked.halt := ending_injective ended
    exact mt stops (not_halted_of_timeout asked.symm)
  · cases ended
    exact absurd rfl others

/-- Unless it does not come to its instruction, which leaves the pause to the step after it. -/
theorem step_breakpoint {pc : Nat} (ran : (step env).run m = (.error (.breakpoint pc), next))
    (running : next.state ≠ .stopped) : next.Overdue := by
  have works := run_work_of_breakpoint ran
  have asked : next.halt.isSome :=
    (working_asked within (other_of_timeout own)).toPolling.holds_of_breakpoint
      (by rw [overdue.asked]; rfl) works
  have halts : next.Halted → next.state = .stopped :=
    (polling_halts within (other_of_timeout own)).holds_of_breakpoint
      (fun halted => absurd halted (not_halted_of_timeout overdue.asked)) works
  exact overdue_of_halts asked halts running

end Overdue

end Within

/-! ### Runs -/

/-- What a run asks that goes on until the machine pauses. -/
def always (_ : Unit) : Action World (Bool × Unit) :=
  return (true, ())

/-- The machines on which the steps of such a run begin. -/
def runStarts (env : Environment World) : (bound : Nat) → Machine World → List (Machine World)
  | 0, _ => []
  | bound + 1, m =>
    if m.stopRequested then
      []
    else
      m :: match (step env).run m with
        | (.ok (), next) => runStarts env bound next
        | (.error _, _) => []

theorem runSteps_always (bound : Nat) (m : Machine World) :
    runSteps env always (bound + 1) () m =
      if m.stopRequested then
        ((some (.ok .stop), ()), (stop env { m with stopRequested := false }).2)
      else
        match (step env).run m with
        | (.ok (), next) => runSteps env always bound () next
        | (.error broken, next) => ((some broken.verdict, ()), next) :=
  runSteps_eq always bound () m

theorem run_eq (bound : Nat) (m : Machine World) :
    run env bound m =
      conclude (runSteps env always bound () (m.setPause .unsuccessful)).1.1
        (runSteps env always bound () (m.setPause .unsuccessful)).2 := rfl

/-- What steps that go on keep holds wherever a step begins. -/
theorem holds_of_mem_runStarts {P : Machine World → Prop} {start : Machine World} {bound : Nat}
    (kept : ∀ {m next}, P m → (step env).run m = (.ok (), next) → P next) (holds : P m)
    (member : start ∈ runStarts env bound m) : P start := by
  induction bound generalizing m with
  | zero => cases member
  | succ bound inductionHypothesis =>
      rw [runStarts] at member
      split at member
      · cases member
      · rcases List.mem_cons.mp member with rfl | later
        · exact holds
        · rcases steps : (step env).run m with ⟨broken | value, next⟩ <;> rw [steps] at later
          · cases later
          · exact inductionHypothesis (kept holds steps) later

/-- A run is ended by a request to stop, or by the last of its steps. -/
theorem closes_of_runSteps {verdict : Except Fault Pause} {last : Machine World} {bound : Nat}
    (ran : runSteps env always bound () m = ((some verdict, ()), last)) :
    verdict = .ok .stop ∨ ∃ start ∈ runStarts env bound m, ∃ broken,
      (step env).run start = (.error broken, last) ∧ verdict = broken.verdict := by
  induction bound generalizing m with
  | zero => cases ran
  | succ bound inductionHypothesis =>
      rw [runSteps_always] at ran
      rw [runStarts]
      split at ran
      · cases ran
        exact .inl rfl
      · next goesOn =>
        rw [if_neg goesOn]
        rcases steps : (step env).run m with ⟨broken | value, next⟩ <;> rw [steps] at ran
        · cases ran
          exact .inr ⟨m, List.mem_cons_self, broken, steps, rfl⟩
        · refine (inductionHypothesis ran).imp_right fun ⟨start, member, ended⟩ => ?_
          exact ⟨start, List.mem_cons_of_mem _ member, ended⟩

/-- A run whose steps all begin before a cycle does not go beyond as many steps as there are cycles
until then: every step that goes on takes one of them at least. -/
theorem runSteps_always_ends (within : env.Within Timeless) {P : Machine World → Prop}
    {limit bound : Nat} (kept : ∀ {m next}, P m → (step env).run m = (.ok (), next) → P next)
    (ahead : ∀ {m}, P m → m.cycles < limit) (holds : P m) (spent : m.clock.queue.budget = 0)
    (delivers : ∀ start ∈ runStarts env bound m, ((step env).run start).2.clock.queue.budget = 0)
    (enough : limit ≤ m.cycles + bound) : (runSteps env always bound () m).1.1 ≠ none := by
  induction bound generalizing m with
  | zero => exact absurd (ahead holds) (Nat.not_lt.mpr enough)
  | succ bound inductionHypothesis =>
      rw [runSteps_always]
      rw [runStarts] at delivers
      split
      · exact Option.some_ne_none _
      · next goesOn =>
        rw [if_neg goesOn] at delivers
        obtain ⟨first, others⟩ := List.forall_mem_cons.mp delivers
        rcases steps : (step env).run m with ⟨broken | value, next⟩ <;> rw [steps] at first others
        · exact Option.some_ne_none _
        · have later := cycles_lt_of_step within spent steps first
          exact inductionHypothesis (kept holds steps) first others (by omega)

/-- The machine says why it was paused: a stop was asked for, or a step was broken. -/
theorem closes_of_run {bound : Nat} (paused : (run env bound m).1 = .paused) :
    ∃ pause reached, (run env bound m).2 = reached.setPause pause ∧
      (pause = .stop ∨ ∃ start ∈ runStarts env bound (m.setPause .unsuccessful), ∃ broken,
        (step env).run start = (.error broken, reached) ∧ broken.verdict = .ok pause) := by
  rw [run_eq] at paused ⊢
  obtain ⟨pause, verdict, reached⟩ := eq_of_conclude_paused paused
  refine ⟨pause, _, reached, ?_⟩
  obtain stop | ⟨start, member, broken, ran, ended⟩ :=
    closes_of_runSteps (Prod.ext (Prod.ext verdict rfl) rfl)
  · exact .inl (Except.ok.inj stop)
  · exact .inr ⟨start, member, broken, ran, ended.symm⟩

/-- Nothing but a breakpoint or a timeout pauses a run in a step without stopping the machine. -/
theorem pause_of_not_stopped {broken : Break} {pause : Pause} (verdict : broken.verdict = .ok pause)
    (going : (m.setPause pause).hitStop = false) :
    (∃ pc, broken = .breakpoint pc ∧ pause = .breakpoint) ∨
      broken = .timeout ∧ pause = .timeout := by
  cases broken with
  | breakpoint pc => cases verdict; exact .inl ⟨pc, rfl, rfl⟩
  | timeout => cases verdict; exact .inr ⟨rfl, rfl⟩
  | «break» => cases verdict; cases going
  | stopped => cases verdict; cases going
  | failed fault => cases verdict

/-- A timeout paused the execution, and nothing else; the machine is not stopped. -/
structure TimedOut (result : RunResult) (m : Machine World) : Prop where
  paused : result = .paused
  timeout : m.hitTimeout = true
  only : m.hitBreakpoint = false ∧ m.hitBreak = false ∧ m.hitStop = false
  running : m.state ≠ .stopped

theorem timedOut_setPause (running : m.state ≠ .stopped) :
    (m.setPause .timeout).TimedOut .paused :=
  ⟨rfl, rfl, ⟨rfl, rfl, rfl⟩, running⟩

/-- A run takes one step for a pause that is overdue: the step pauses the run, or comes to a
breakpoint and leaves the pause to the next run again. -/
structure PausesNext (env : Environment World) (m : Machine World) (bound : Nat) : Prop where
  once : (runStarts env (bound + 1) (m.setPause .unsuccessful)).length ≤ 1
  ends : (run env (bound + 1) m).1 ≠ .unfinished
  pauses : (run env (bound + 1) m).1 = .paused → (run env (bound + 1) m).2.hitStop = false →
    (run env (bound + 1) m).2.TimedOut (run env (bound + 1) m).1 ∨
      (run env (bound + 1) m).2.hitBreakpoint = true ∧
        ((run env (bound + 1) m).2.state ≠ .stopped → (run env (bound + 1) m).2.Overdue)

theorem Overdue.pausesNext (within : env.Within (Punctual entry))
    (own : entry.event = .timeout handle) (overdue : m.Overdue) (bound : Nat) :
    PausesNext env m bound := by
  have unpaused : (m.setPause .unsuccessful).Overdue := ⟨overdue.asked, overdue.running⟩
  obtain ⟨broken, next, steps⟩ : ∃ broken next,
      (step env).run (m.setPause .unsuccessful) = (.error broken, next) := by
    rcases steps : (step env).run (m.setPause .unsuccessful) with ⟨broken | value, next⟩
    · exact ⟨broken, next, rfl⟩
    · exact absurd steps (unpaused.step_ne_ok within own)
  refine ⟨?_, ?_, fun paused going => ?_⟩
  · rw [runStarts, steps]
    split
    · exact Nat.zero_le 1
    · exact Nat.le_refl 1
  · have ends : (runSteps env always (bound + 1) () (m.setPause .unsuccessful)).1.1 ≠ none := by
      rw [runSteps_always, steps]
      split <;> exact Option.some_ne_none _
    exact conclude_ne_unfinished ends _
  · obtain ⟨pause, reached, ends, ended⟩ := closes_of_run paused
    rw [ends] at going ⊢
    rw [paused]
    rcases ended with rfl | ⟨start, member, broken, ran, verdict⟩
    · cases going
    have before : start.Overdue :=
      holds_of_mem_runStarts (fun overdue ran => absurd ran (overdue.step_ne_ok within own))
        unpaused member
    rcases pause_of_not_stopped verdict going with ⟨pc, rfl, rfl⟩ | ⟨rfl, rfl⟩
    · refine .inr ⟨rfl, fun running => ?_⟩
      have after : reached.Overdue := before.step_breakpoint within own ran running
      exact ⟨after.asked, after.running⟩
    · exact .inl (timedOut_setPause (before.step_timeout within own ran))

section Ends

variable (within : env.Within (Punctual entry)) (own : entry.event = .timeout handle)
  (upholds : env.Upholds (Unrivalled entry))
  (underway : (m.setPause .unsuccessful).Underway entry) {bound : Nat}
include within own upholds underway

theorem underway_of_mem {start : Machine World}
    (member : start ∈ runStarts env bound (m.setPause .unsuccessful)) : start.Underway entry :=
  holds_of_mem_runStarts (fun underway => underway.step_ok within own upholds) underway member

/-- As many steps are enough as there are cycles until the timeout. -/
theorem run_ends (spent : m.clock.queue.budget = 0)
    (delivers : ∀ start ∈ runStarts env bound (m.setPause .unsuccessful),
      ((step env).run start).2.clock.queue.budget = 0)
    (enough : entry.time ≤ m.cycles + bound) : (run env bound m).1 ≠ .unfinished := by
  have timeless : env.Within Timeless := within.mono fun _ _ => Punctual.timeless
  have ends := runSteps_always_ends timeless (fun underway => underway.step_ok within own upholds)
    (fun underway => underway.ahead.2) underway spent delivers enough
  exact conclude_ne_unfinished ends _

/-- A run that pauses without a breakpoint or a stop was paused by this timeout. -/
theorem timedOut_of_run (paused : (run env bound m).1 = .paused)
    (pass : (run env bound m).2.hitBreakpoint = false)
    (going : (run env bound m).2.hitStop = false) :
    (run env bound m).2.TimedOut (run env bound m).1 ∧ entry.time ≤ (run env bound m).2.cycles := by
  obtain ⟨pause, reached, ends, ended⟩ := closes_of_run paused
  rw [ends] at pass going ⊢
  rw [paused]
  rcases ended with rfl | ⟨start, member, broken, ran, verdict⟩
  · cases going
  rcases pause_of_not_stopped verdict going with ⟨pc, rfl, rfl⟩ | ⟨rfl, rfl⟩
  · cases pass
  · have before : start.Underway entry := underway_of_mem within own upholds underway member
    obtain ⟨running, reached⟩ := before.step_timeout within own upholds ran
    exact ⟨timedOut_setPause running, reached⟩

/-- A breakpoint in the step of the timeout leaves its pause to the next run. -/
theorem overdue_of_run (paused : (run env bound m).1 = .paused)
    (hit : (run env bound m).2.hitBreakpoint = true)
    (running : (run env bound m).2.state ≠ .stopped)
    (reached : entry.time ≤ (run env bound m).2.cycles) : (run env bound m).2.Overdue := by
  obtain ⟨pause, left, ends, ended⟩ := closes_of_run paused
  rw [ends] at hit running reached ⊢
  rcases ended with rfl | ⟨start, member, broken, ran, verdict⟩
  · cases hit
  have atBreakpoint : pause = .breakpoint := of_decide_eq_true hit
  obtain ⟨pc, rfl⟩ : ∃ pc, broken = .breakpoint pc := by
    subst atBreakpoint
    cases broken with
    | breakpoint pc => exact ⟨pc, rfl⟩
    | «break» | stopped | timeout | failed => cases verdict
  have before : start.Underway entry := underway_of_mem within own upholds underway member
  have overdue : left.Overdue := before.step_breakpoint within own upholds ran reached running
  exact ⟨overdue.asked, overdue.running⟩

end Ends

/-! ### The main result -/

theorem underway_scheduleTimeout {delay : Nat} (tidy : DeltaQueue.Tidy m.clock.queue.links)
    (first : ∀ other ∈ m.clock.queue.agenda.entries, other.event.pauses = true →
      m.cycles + delay ≤ other.time)
    (quiet : m.halt = none) (running : m.state ≠ .stopped) (later : 1 ≤ delay) :
    ((scheduleTimeout env handle delay m).2.setPause .unsuccessful).Underway
      ⟨m.cycles + delay, .timeout handle⟩ := by
  have entries : (m.clock.queue.add (.timeout handle) delay).agenda.entries.Perm
      (⟨m.cycles + delay, .timeout handle⟩ :: m.clock.queue.agenda.entries) := by
    rw [DeltaQueue.agenda_add tidy]
    exact Agenda.entries_add_perm _ _ delay
  constructor
  case toAlone =>
    refine ⟨DeltaQueue.tidy_insert _ delay tidy, .inr ⟨?_, fun other member pauses => ?_⟩⟩
    · have silent : ((scheduleTimeout env handle delay m).2.setPause .unsuccessful).halt = none :=
        quiet
      rw [silent]
      exact nofun
    · rcases List.mem_cons.mp (entries.mem_iff.mp member) with rfl | before
      · exact Nat.le_refl _
      · exact first other before pauses
  case ahead =>
    exact ⟨entries.mem_iff.mpr List.mem_cons_self, Nat.lt_add_of_pos_right later⟩
  case quiet => exact quiet
  case running => exact running

/-- A timeout pauses a run in the step in which its cycle is reached, as long as nothing takes the
timeout or its pause back, and no other timeout is queued for earlier or called earlier, unless a
breakpoint, a stop or a fault ends the run before. If a breakpoint ends that step, the timeout
pauses the next run, in the first step that comes to its instruction. -/
theorem timeouts_pause_on_time (m : Machine World) (handle : Handle) (delay : Nat)
    (within : env.Within (Punctual ⟨m.cycles + delay, .timeout handle⟩))
    (upholds : env.Upholds (Unrivalled ⟨m.cycles + delay, .timeout handle⟩))
    (first : ∀ other ∈ m.clock.queue.agenda.entries, other.event.pauses = true →
      m.cycles + delay ≤ other.time)
    (tidy : DeltaQueue.Tidy m.clock.queue.links) (spent : m.clock.queue.budget = 0)
    (quiet : m.halt = none) (running : m.state ≠ .stopped) (later : 1 ≤ delay) (bound : Nat) :
    let timed := (scheduleTimeout env handle delay m).2
    let starts := runStarts env bound (timed.setPause .unsuccessful)
    let result := (run env bound timed).1
    let last := (run env bound timed).2
    (∀ start ∈ starts, ((step env).run start).2.clock.queue.budget = 0) →
      (delay ≤ bound → result ≠ .unfinished) ∧
      (∀ start ∈ starts, start.cycles < m.cycles + delay) ∧
      (delay ≤ bound → (∀ fault, result ≠ .failed fault) → last.hitBreakpoint = false →
        last.hitStop = false → last.TimedOut result ∧ m.cycles + delay ≤ last.cycles) ∧
      (result = .paused → last.hitBreakpoint = true → last.state ≠ .stopped →
        m.cycles + delay ≤ last.cycles → last.Overdue) ∧
      ∀ left : Machine World, left.Overdue → ∀ more, PausesNext env left more := by
  intro timed starts result last delivers
  let entry : Entry Event := ⟨m.cycles + delay, .timeout handle⟩
  have own : entry.event = .timeout handle := rfl
  have underway : (timed.setPause .unsuccessful).Underway entry :=
    underway_scheduleTimeout tidy first quiet running later
  have finishes (enough : delay ≤ bound) : result ≠ .unfinished :=
    run_ends within own upholds underway spent delivers (Nat.add_le_add_left enough _)
  refine ⟨finishes, fun start member => ?_, fun enough sound pass going => ?_,
    overdue_of_run within own upholds underway,
    fun left overdue => overdue.pausesNext within own⟩
  · exact (underway_of_mem within own upholds underway member).ahead.2
  · have paused : result = .paused := by
      cases ended : result with
      | paused => rfl
      | failed fault => exact absurd ended (sound fault)
      | unfinished => exact absurd ended (finishes enough)
    exact timedOut_of_run within own upholds underway paused pass going

/-- A machine with a program of three words that do nothing. -/
def idling : Machine Unit :=
  let program := Program.ofInstrs [.control .nop, .control .nop, .control .nop]
  ((loadProgram program).run (new smallPart ⟨.known 0, false, false⟩ ())).2

/-- The same with a delay outstanding, and a breakpoint on the first word. -/
def held : Machine Unit :=
  { idling.delay 5 with flash := idling.flash.apply (.insertBreakpoint 0) }

/-- A timeout wakes nobody, but pauses a machine that sleeps up to it. One that expires during a
delay, on the way to a breakpoint, pauses the next run. -/
theorem timeouts_pause_on_time_asleep_or_held :
    let slept := run silence 3 (scheduleTimeout silence ⟨0⟩ 3 idling.asleep).2
    let stuck := run silence 3 (scheduleTimeout silence ⟨0⟩ 3 held).2
    let again := run silence 1 stuck.2
    (slept.2.TimedOut slept.1 ∧ slept.2.sleeping = true ∧ slept.2.cycles = 3) ∧
      (stuck.2.hitBreakpoint = true ∧ stuck.2.cycles = 5 ∧ stuck.2.Overdue) ∧
      again.2.TimedOut again.1 ∧ again.2.cycles = 6 := by
  intro slept stuck again
  have empty : idling.clock.queue.links = [] := by decide +kernel
  have tidy : DeltaQueue.Tidy idling.clock.queue.links := empty ▸ trivial
  have first (m : Machine Unit) (none : m.clock.queue.agenda.entries = []) :
      ∀ other ∈ m.clock.queue.agenda.entries, other.event.pauses = true →
        m.cycles + 3 ≤ other.time := by
    rw [none]
    exact nofun
  have pauses := timeouts_pause_on_time idling.asleep ⟨0⟩ 3 within_silence within_silence
    (first _ (by decide +kernel)) tidy (by decide +kernel) (by decide +kernel) (by decide +kernel)
    (by decide) 3 (by decide +kernel)
  have leaves := timeouts_pause_on_time held ⟨0⟩ 3 within_silence within_silence
    (first _ (by decide +kernel)) tidy (by decide +kernel) (by decide +kernel) (by decide +kernel)
    (by decide) 3 (by decide +kernel)
  have paused : slept.1 = .paused := by decide +kernel
  have overdue : stuck.2.Overdue := leaves.2.2.2.1 (by decide +kernel) (by decide +kernel)
    (by decide +kernel) (by decide +kernel)
  have sound : ∀ fault, slept.1 ≠ .failed fault := by
    intro fault failed
    cases paused.symm.trans failed
  obtain ⟨timedOut, reached⟩ :=
    pauses.2.2.1 (by decide) sound (by decide +kernel) (by decide +kernel)
  have start : idling.asleep.cycles + 3 = 3 := by decide +kernel
  have onTime : slept.2.cycles = 3 := Nat.le_antisymm (by decide +kernel) (start ▸ reached)
  refine ⟨⟨timedOut, by decide +kernel, onTime⟩,
    ⟨by decide +kernel, by decide +kernel, overdue⟩, ?_, by decide +kernel⟩
  · obtain timedOut | ⟨hit, -⟩ := (leaves.2.2.2.2 stuck.2 overdue 0).pauses (by decide +kernel)
      (by decide +kernel)
    · exact timedOut
    · have passed : again.2.hitBreakpoint = false := by decide +kernel
      cases hit.symm.trans passed

/-- An environment in which every event cancels a timeout. -/
def cancelling : Environment Unit :=
  { silence with
    notify := fun _ hook => do
      if hook = .event then
        let _ ← unschedule silence (.timeout ⟨0⟩) }

/-- Nothing was reset, advanced, delayed or halted. -/
structure Unmoved (m next : Machine World) : Prop where
  count : next.clock.queue.count = m.clock.queue.count
  budget : next.clock.queue.budget = m.clock.queue.budget
  delay : next.delayCycles = m.delayCycles
  halt : next.halt = m.halt
  state : next.state = m.state

theorem unmoved_refl (m : Machine World) : Unmoved m m :=
  ⟨rfl, rfl, rfl, rfl, rfl⟩

theorem unmoved_cancelling : cancelling.Within Unmoved where
  notify _ hook := by
    constructor
    intro m
    by_cases event : hook = .event
    · have cancels : (cancelling.notify ⟨0⟩ hook m).2 =
          m.setQueue (m.clock.queue.removeMatching fun queued => queued = .timeout ⟨0⟩) := by
        rw [← unschedule_silence, event]
        rfl
      exact cancels ▸ ⟨rfl, rfl, rfl, rfl, rfl⟩
    · have calls : cancelling.notify ⟨0⟩ hook m = ((), m) := by
        change (if hook = .event then _ else _ : Action Unit Unit) m = _
        rw [if_neg event]
        rfl
      exact calls ▸ unmoved_refl m
  readDevice _ := ⟨unmoved_refl⟩
  writeDevice _ _ := ⟨⟨unmoved_refl⟩⟩
  readDeviceBit _ _ := ⟨unmoved_refl⟩
  writeDeviceBit _ _ _ := ⟨⟨unmoved_refl⟩⟩

/-- A machine that runs in a circle, with an event queued for its third cycle. -/
def circling : Machine Unit :=
  let loaded := Prod.snd <|
    (loadProgram (Program.ofInstrs [.relative false (-1)])).run
      (new smallPart ⟨.known 0, false, false⟩ ())
  (schedule silence (.outside ⟨1⟩) 3 loaded).2

/-- A timeout that is cancelled does not pause the run, although nothing else happens to it. -/
theorem cancelled_timeout_does_not_pause :
    let timed := (scheduleTimeout cancelling ⟨0⟩ 5 circling).2
    let starts := runStarts cancelling 7 (timed.setPause .unsuccessful)
    let last := (run cancelling 7 timed).2
    cancelling.Within Unmoved ∧
      (circling.halt = none ∧ circling.delayCycles = 0 ∧ circling.state ≠ .stopped) ∧
      (∀ start ∈ starts, ((step cancelling).run start).2.clock.queue.budget = 0) ∧
      (run cancelling 7 timed).1 = .unfinished ∧ circling.cycles + 5 < last.cycles := by
  intro timed starts last
  exact ⟨unmoved_cancelling, by decide +kernel, by decide +kernel, by decide +kernel,
    by decide +kernel⟩

end Avr.Machine

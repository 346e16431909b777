import Avr.Proofs.Machine.Breakpoint
import Avr.Proofs.Machine.FastPath

/-!
Contract: operations that neither step nor reset a machine.

Owns:
- the operations, by what the interrupt check sees of them;
- properties that outlast all such operations, as invariants of everything that a program does but
  to return from a handler and to sleep;
- what the execution of one instruction establishes, once it is counted, and what a return does.
-/

namespace Avr.Machine

open Avr.Isa

variable {World : Type} {env : Environment World} {P Q S : Machine World → Prop}
  {m next : Machine World}

/-- Nothing was executed, no return is owed or forgotten, the machine did not fall asleep, and a
check that is due stays due. -/
structure Steady (m next : Machine World) : Prop where
  returned : next.justReturned = m.justReturned
  alert : m.innerLoop = false → next.innerLoop = false
  awake : m.sleeping = false → next.sleeping = false
  counted : next.instructionsRun = m.instructionsRun

instance : IsPreorder (Machine World) Steady where
  refl _ := ⟨rfl, id, id, rfl⟩
  trans _ _ _ first second :=
    ⟨second.returned.trans first.returned, second.alert ∘ first.alert, second.awake ∘ first.awake,
      second.counted.trans first.counted⟩

/-- A property that outlasts every such operation and everything that the environment calls. -/
structure Lasting (env : Environment World) (P : Machine World → Prop) : Prop where
  steady : ∀ m next : Machine World, Steady m next → P m → P next
  upholds : env.Upholds P

namespace Lasting

/-- If all that is called is steady as well, only that matters. -/
theorem of_steady (within : env.Within Steady) (steady : ∀ m next, Steady m next → P m → P next) :
    Lasting env P :=
  ⟨steady, within.mono steady⟩

/-- Changes of everything that a steady operation may change. -/
theorem edit (lasting : Lasting env P) (holds : P m) (returned : next.justReturned = m.justReturned)
    (loop : next.innerLoop = m.innerLoop) (sleeping : next.sleeping = m.sleeping)
    (counted : next.instructionsRun = m.instructionsRun) : P next :=
  lasting.steady m next ⟨returned, loop.trans, sleeping.trans, counted⟩ holds

theorem allowed (lasting : Lasting env P) (holds : P m) : P m.allowed :=
  lasting.steady m _ ⟨rfl, fun _ => rfl, id, rfl⟩ holds

theorem woken (lasting : Lasting env P) (holds : P m) : P m.awake :=
  lasting.steady m _ ⟨rfl, id, fun _ => rfl, rfl⟩ holds

theorem programInvariant (lasting : Lasting env P) : ProgramInvariant env P fun _ => True where
  note _ holds := lasting.edit holds rfl rfl rfl rfl
  instrument handle hook _ := lasting.upholds.notify handle hook
  add _ _ holds := lasting.edit holds rfl rfl rfl rfl
  timeout holds := lasting.edit holds rfl rfl rfl rfl
  vector holds _ _ _ := lasting.edit holds rfl rfl rfl rfl
  load holds _ := lasting.edit holds rfl rfl rfl rfl
  settleIn _ _ holds := lasting.edit holds rfl rfl rfl rfl
  addOwner _ holds := lasting.edit holds rfl rfl rfl rfl
  dropOwner _ holds := lasting.edit holds rfl rfl rfl rfl
  device handle hook _ := lasting.upholds.notify handle hook
  readDevice := lasting.upholds.readDevice
  writeDevice := lasting.upholds.writeDevice
  readDeviceBit := lasting.upholds.readDeviceBit
  writeDeviceBit := lasting.upholds.writeDeviceBit
  readOutside _ _ _ _ holds := lasting.edit holds rfl rfl rfl rfl
  writeOutside _ _ _ _ holds := lasting.edit holds rfl rfl rfl rfl
  compute _ _ holds _ := lasting.edit holds rfl rfl rfl rfl
  allow := lasting.allowed
  forbid holds := lasting.edit holds rfl rfl rfl rfl

theorem unconcerned (lasting : Lasting env P) : Unconcerned (Itself P) :=
  unconcerned_itself (fun _ holds => lasting.edit holds rfl rfl rfl rfl)
    fun _ holds => lasting.edit holds rfl rfl rfl rfl

theorem background (lasting : Lasting env P) : Background env (Itself P) Eq fun _ => True :=
  lasting.programInvariant.background lasting.unconcerned fun _ => trivial

theorem dispatching (lasting : Lasting env P) : Dispatching env (Itself P) Eq fun _ => True :=
  lasting.programInvariant.dispatching lasting.unconcerned (fun _ => trivial)
    (fun _ _ holds => lasting.edit holds rfl rfl rfl rfl)
    (fun _ holds => lasting.edit holds rfl rfl rfl rfl) lasting.woken

/-- Only the counting of an instruction remains to be known of the property. -/
theorem executionInvariant (lasting : Lasting env P)
    (count : ∀ m, P m → P { m with instructionsRun := m.instructionsRun + 1 }) :
    ExecutionInvariant P where
  jump _ holds := lasting.edit holds rfl rfl rfl rfl
  count := count _
  breaking holds := lasting.edit holds rfl rfl rfl rfl
  wake := lasting.woken
  spend holds := lasting.edit holds rfl rfl rfl rfl
  rest {m} holds := lasting.steady m _ ⟨rfl, fun _ => rfl, id, rfl⟩ holds
  halt holds := lasting.edit holds rfl rfl rfl rfl
  fetch holds _ := lasting.edit holds rfl rfl rfl rfl

theorem stepwise (lasting : Lasting env P)
    (count : ∀ m, P m → P { m with instructionsRun := m.instructionsRun + 1 }) :
    Stepwise env (Itself P) Eq fun _ => True :=
  lasting.dispatching.toAccesses.stepwise
    (fun cycles => (lasting.background.mirrors_advance cycles).keeps)
    (lasting.executionInvariant count)

theorem handles (lasting : Lasting env P) {i : Instr}
    (returned : i = .control .reti → ∀ m, P m → P { m with justReturned := true })
    (doze : i = .control .sleep → ∀ m, P m → P m.asleep) : Handles env (Itself P) i :=
  lasting.programInvariant.computing.handles returned
    (fun _ => lasting.background.mirrors_storeProgram.keeps) doze

end Lasting

/-! ### One instruction -/

/-- What the execution of an instruction establishes lasts until it is counted. -/
theorem ensures_runInstruction (before : Lasting env P) (after : Lasting env Q) {i : Instr}
    (executes : Attempt.Ensures P (execute env i) Q fun _ _ => True)
    (count : ∀ m, Q m → S { m with instructionsRun := m.instructionsRun + 1 }) (pc : Nat)
    (own : HandleList) : Attempt.Ensures P (runInstruction env pc i own) S fun _ _ => True := by
  have instruments {P : Machine World → Prop} (lasting : Lasting env P) (handles : HandleList)
      (hook : Hook) (instrument : hook.isInstrument = true) :
      Attempt.Ensures P (liftM (notifyAll env handles hook) : Attempt World Unit) P
        fun _ _ => True :=
    .lift (lasting.dispatching.instruments hook instrument rfl).keeps.related
  have advances (cycles : Nat) :
      Attempt.Ensures Q (liftM (advance env cycles) : Attempt World Unit) Q fun _ _ => True :=
    .lift (after.dispatching.mirrors_advance cycles).keeps.related
  refine .bind (Q := P) ⟨fun m _ _ holds ran => ?_, fun _ _ _ _ _ => trivial⟩ fun m => ?_
  · cases ran
    exact holds
  refine .bind (instruments before _ _ rfl) fun _ => .bind (instruments before _ _ rfl) fun _ => ?_
  refine .bind executes fun cycles => .bind (advances cycles) fun _ => ?_
  refine .bind (instruments after _ _ rfl) fun _ => .bind (instruments after _ _ rfl) fun _ => ?_
  exact .lift count

/-- A step that does not fail has run its instruction to the end. -/
theorem holds_finishInstruction {pc : Nat} {i : Instr} {own : HandleList}
    (ensures : Attempt.Ensures P (runInstruction env pc i own) S fun _ _ => True)
    (lasting : Lasting env S) (holds : P m)
    (survives : isFatal ((finishInstruction env pc i own).run m).1 = false) :
    S ((finishInstruction env pc i own).run m).2 := by
  rw [finishInstruction, Attempt.run_bind, run_orBreak] at survives ⊢
  rcases ran : (runInstruction env pc i own).run m with ⟨fault | value, done⟩
  · rw [ran] at survives
    cases survives
  · dsimp only
    rw [run_takeHalt]
    exact lasting.edit (ensures.completed m value done holds ran) rfl rfl rfl rfl

/-! ### Returns from handlers -/

theorem perform_reti (env : Environment World) (next : Nat) :
    perform env (.control .reti) next = (do
      let target ← popReturn env
      allowReturning env ⟨target * 2, 4⟩) := rfl

section Return

variable (alert : Lasting env fun m => m.innerLoop = false ∧ m.sleeping = false)
  (returned : ∀ m : Machine World, m.innerLoop = false → m.sleeping = false →
    P { m with justReturned := true })
include alert returned

theorem ensures_allowReturning (outcome : Outcome) :
    Attempt.Ensures (fun m => m.sleeping = false) (allowReturning env outcome) P
      fun _ _ => True := by
  have allows : Attempt.Ensures (fun m => m.sleeping = false)
      (liftM (enableInterrupts env) : Attempt World Unit)
      (fun m => m.innerLoop = false ∧ m.sleeping = false) fun _ _ => True := by
    refine .lift fun m awake => ?_
    exact (alert.dispatching.mirrors_notifyGlobal rfl).keeps.related m.allowed ⟨rfl, awake⟩
  refine .bind allows fun _ => .bind (Q := P) (.lift ?_) fun _ => .pure fun _ => id
  exact fun m ⟨alert, awake⟩ => returned m alert awake

/-- A return leaves the mark of a return, and the next check due. -/
theorem ensures_return (awake : Lasting env fun m => m.sleeping = false) (lasting : Lasting env P) :
    Attempt.Ensures (fun m => m.sleeping = false) (execute env (.control .reti)) P
      fun _ _ => True := by
  have pops : Attempt.Ensures (fun m => m.sleeping = false)
      (liftM (popReturn env) : Attempt World Nat) (fun m => m.sleeping = false) fun _ _ => True :=
    .lift awake.dispatching.mirrors_popReturn.keeps.related
  have returns (next : Nat) : Attempt.Ensures (fun m => m.sleeping = false)
      (perform env (.control .reti) next) P fun _ _ => True := by
    rw [perform_reti]
    exact .bind pops fun _ => ensures_allowReturning alert returned _
  refine .getting fun m awake => ?_
  refine .bind ((returns _).weaken fun start same => same ▸ awake) fun outcome => ?_
  refine .bind (Q := P) (.lift fun m holds => ?_) fun _ => .pure fun _ => id
  exact lasting.edit holds rfl rfl rfl rfl

end Return

/-! ### Steady operations -/

theorem lasting_steady (within : env.Within Steady) (start : Machine World) :
    Lasting env (Steady start) :=
  .of_steady within fun _ _ steady before => trans_of Steady before steady

theorem dispatching_steady (within : env.Within Steady) (start : Machine World) :
    Dispatching env (Itself (Steady start)) Eq fun _ => True :=
  (lasting_steady within start).dispatching

theorem steady_loadProgram (program : Program) :
    Attempt.Respects Steady (loadProgram program : Attempt World Unit) := by
  refine .attempt fun m next changed => ?_
  split at changed
  · rcases loads : m.flash.load 0 program.bytes.toList with fault | flash
    · rw [loads] at changed
      cases changed
    · rw [loads] at changed
      cases changed
      exact ⟨rfl, id, id, rfl⟩
  · cases changed

theorem steady_setPosted (within : env.Within Steady) (vector : Nat) (posted : Bool) :
    Attempt.Respects Steady (setPosted env vector posted) :=
  .of_mirrors fun start => (dispatching_steady within start).mirrors_setPosted posted trivial

theorem within_silence {R : Machine Unit → Machine Unit → Prop} [IsPreorder (Machine Unit) R] :
    silence.Within R where
  notify _ _ := .pure _
  readDevice _ := .pure _
  writeDevice _ _ := .pure _
  readDeviceBit _ _ := .pure _
  writeDeviceBit _ _ _ := .pure _

end Avr.Machine

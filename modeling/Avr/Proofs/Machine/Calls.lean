import Avr.Proofs.Machine.DataSpace
import Avr.Proofs.Machine.Dispatch
import Avr.Proofs.Machine.Stack
import Avr.Proofs.Machine.Steady
import Avr.Proofs.Machine.Work
import Mathlib.Algebra.Group.Nat.Defs

/-!
Contract: calls and dispatches, and the returns from them.

Owns:
- the stack pointer, which keeps its place whatever happens between a call and its return;
- calls and `RET`, which goes on behind the call;
- dispatches and `RETI`, which goes on where the dispatch came in between.

Meanwhile anything may happen, as long as the return address lies on the stack at the end. What is
called during a dispatch or a return from a handler is supposed to leave alone what these have to do
with.
-/

namespace Avr

/-- The instruction is `CALL`, `RCALL` or `ICALL`. -/
def Isa.Instr.calls : Isa.Instr → Bool
  | .absolute isCall _ | .relative isCall _ => isCall
  | .control .icall => true
  | _ => false

namespace Machine

open Avr.Interrupt Avr.Io Avr.Isa

variable {World : Type} {env : Environment World} {part : Part} {m next last : Machine World}

/-! ### Between a call and its return -/

namespace Stacked

theorem programInvariant (upholds : env.Upholds (Stacked part)) :
    ProgramInvariant env (Stacked part) fun _ => True where
  note _ stacked := stacked.edit rfl rfl rfl
  instrument handle hook _ := upholds.notify handle hook
  add _ _ stacked := stacked.edit rfl rfl rfl
  timeout stacked := stacked.edit rfl rfl rfl
  vector stacked _ _ _ := stacked.edit rfl rfl rfl
  load stacked _ := stacked.edit rfl rfl rfl
  settleIn _ _ stacked := stacked.edit rfl rfl rfl
  addOwner _ stacked := stacked.edit rfl rfl rfl
  dropOwner _ stacked := stacked.edit rfl rfl rfl
  device handle hook _ := upholds.notify handle hook
  readDevice := upholds.readDevice
  writeDevice := upholds.writeDevice
  readDeviceBit := upholds.readDeviceBit
  writeDeviceBit := upholds.writeDeviceBit
  readOutside _ _ _ _ stacked := stacked.edit rfl rfl rfl
  writeOutside _ _ _ _ stacked := stacked.edit rfl rfl rfl
  compute _ _ stacked _ := stacked.edit rfl rfl rfl
  allow stacked := stacked.edit rfl rfl rfl
  forbid stacked := stacked.edit rfl rfl rfl

theorem stepInvariant : StepInvariant (Stacked part : Machine World → Prop) where
  jump _ stacked := stacked.edit rfl rfl rfl
  count stacked := stacked.edit rfl rfl rfl
  breaking stacked := stacked.edit rfl rfl rfl
  wake stacked := stacked.edit rfl rfl rfl
  spend stacked := stacked.edit rfl rfl rfl
  rest stacked := stacked.edit rfl rfl rfl
  halt stacked := stacked.edit rfl rfl rfl
  fetch stacked _ := stacked.edit rfl rfl rfl
  returned _ stacked := stacked.edit rfl rfl rfl
  look _ stacked := stacked.edit rfl rfl rfl
  stale _ stacked := stacked.edit rfl rfl rfl

/-- A step keeps the stack pointer where it is stored. -/
theorem step (upholds : env.Upholds (Stacked part)) (stacked : m.Stacked part) :
    ((Machine.step env).run m).2.Stacked part := by
  have computing := (programInvariant upholds).computing
  have unconcerned : Unconcerned (Itself (Stacked part : Machine World → Prop)) :=
    unconcerned_itself (fun _ stacked => stacked.edit rfl rfl rfl) fun _ stacked =>
      stacked.edit rfl rfl rfl
  have background := (programInvariant upholds).background unconcerned fun _ => trivial
  have accesses := computing.accesses unconcerned (fun _ => trivial)
    fun register value ⟨same, stacked⟩ => ⟨same ▸ rfl, stacked.setIoStored register value⟩
  have stepwise := accesses.stepwise (fun cycles => (background.mirrors_advance cycles).keeps)
    stepInvariant.toExecutionInvariant
  refine stepwise.keeps_step stepInvariant (fun _ _ stacked => stacked.edit rfl rfl rfl) stacked
    fun i _ => computing.handles (fun _ _ stacked => stacked.edit rfl rfl rfl) (fun _ => ?_)
      fun _ _ stacked => stacked.edit rfl rfl rfl
  exact background.mirrors_storeProgram.keeps

end Stacked

theorem Stacked.interlude (upholds : env.Upholds (Stacked part)) (stacked : m.Stacked part)
    (interlude : Interlude env (Stacked part) m last) : last.Stacked part :=
  interlude.keeps (fun stacked => stacked.step upholds) stacked

/-! ### Calls -/

/-- A call pushes the address of the following instruction, in words. -/
theorem Stacked.run_execute_of_calls (stacked : m.Stacked part) (room : m.Room 2) {i : Instr}
    (calls : i.calls = true) :
    ∃ cycles target, (execute env i).run m =
      (.ok cycles, { m.withReturn (following m.pc i / 2) with pc := target }) := by
  have called : (call env (following m.pc i)).run m =
      (.ok (), m.withReturn (following m.pc i / 2)) := stacked.run_pushReturn room _
  have goesOn (next : Machine World → Outcome)
      (performs : perform env i (following m.pc i) = (do
        call env (following m.pc i)
        return next (← get))) :
      ∃ cycles target, (execute env i).run m =
        (.ok cycles, { m.withReturn (following m.pc i / 2) with pc := target }) := by
    have performed : (perform env i (following m.pc i)).run m =
        (.ok (next (m.withReturn (following m.pc i / 2))),
          m.withReturn (following m.pc i / 2)) := by
      rw [performs, Attempt.run_bind, called]
      rfl
    exact ⟨_, _, run_execute_of_performed performed⟩
  unfold Instr.calls at calls
  split at calls
  · subst calls
    exact goesOn (fun _ => ⟨_, 4⟩) rfl
  · subst calls
    exact goesOn (fun after => ⟨after.relativeTarget _ _, 3⟩) rfl
  · exact goesOn (fun after => ⟨(after.pointer .z).toNat * 2, 3⟩) rfl
  · cases calls

theorem run_execute_ret {word : Nat} {popped : Machine World}
    (pops : popReturn env m = (word, popped)) :
    (execute env (.control .ret)).run m = (.ok 4, { popped with pc := word * 2 }) := by
  have performed : (perform env (.control .ret) (following m.pc (.control .ret))).run m =
      (.ok ⟨word * 2, 4⟩, popped) := by
    rw [perform, executeControl, Attempt.run_bind, Attempt.run_lift, pops]
    rfl
  exact run_execute_of_performed performed

/-! ### Dispatches -/

/-- Nothing changed that a dispatch or a return has to do with. -/
structure Undisturbed (m next : Machine World) : Prop where
  pc : next.pc = m.pc
  status : next.status = m.status
  data : next.data = m.data
  part : next.part = m.part
  window : next.io.size = m.io.size
  low : next.kindAt m.part.stackLow = m.kindAt m.part.stackLow
  high : next.kindAt m.part.stackHigh = m.kindAt m.part.stackHigh
  told : next.interrupts.notifications = m.interrupts.notifications

instance : IsPreorder (Machine World) Undisturbed where
  refl _ := ⟨rfl, rfl, rfl, rfl, rfl, rfl, rfl, rfl⟩
  trans _ _ _ first rest :=
    { pc := rest.pc.trans first.pc
      status := rest.status.trans first.status
      data := rest.data.trans first.data
      part := rest.part.trans first.part
      window := rest.window.trans first.window
      low := (first.part ▸ rest.low).trans first.low
      high := (first.part ▸ rest.high).trans first.high
      told := rest.told.trans first.told }

namespace Undisturbed

theorem stackPointer (undisturbed : Undisturbed m next) :
    next.stackPointer = m.stackPointer := by
  rw [Machine.stackPointer, Machine.stackPointer, undisturbed.part, ioStored_eq, ioStored_eq,
    ioStored_eq, ioStored_eq, undisturbed.low, undisturbed.high]

theorem stacked (undisturbed : Undisturbed m next) (stacked : m.Stacked part) :
    next.Stacked part where
  same := undisturbed.part.trans stacked.same
  unwatched := by
    rw [Unwatched, undisturbed.data]
    exact stacked.unwatched
  window := undisturbed.window ▸ stacked.window
  low := by
    rw [← stacked.same, undisturbed.low, stacked.same]
    exact stacked.low
  high := by
    rw [← stacked.same, undisturbed.high, stacked.same]
    exact stacked.high

/-- Changes of everything else. -/
theorem edit {start : Machine World} (before : Undisturbed start m) (pc : next.pc = m.pc)
    (status : next.status = m.status) (data : next.data = m.data) (part : next.part = m.part)
    (io : next.io = m.io) (told : next.interrupts.notifications = m.interrupts.notifications) :
    Undisturbed start next :=
  trans_of Undisturbed before
    ⟨pc, status, data, part, by rw [io], by rw [kindAt, io], by rw [kindAt, io], told⟩

/-- So is every IO register but the halves of the stack pointer. -/
theorem setIoStored {register : Nat} (apart : register ∉ [m.part.stackLow, m.part.stackHigh])
    (value : UInt8) : Undisturbed m (m.setIoStored register value) := by
  simp only [List.mem_cons, List.not_mem_nil, or_false, not_or] at apart
  exact
    { pc := rfl
      status := rfl
      data := rfl
      part := rfl
      window := size_setIoStored m register value
      low := by rw [kindAt_setIoStored, if_neg apart.1]
      high := by rw [kindAt_setIoStored, if_neg apart.2]
      told := rfl }

theorem respects_wake (env : Environment World) : Action.Respects Undisturbed (wake env) := by
  have woken : Action.Respects Undisturbed (modify awake : Action World Unit) :=
    .modify fun _ => ⟨rfl, rfl, rfl, rfl, rfl, rfl, rfl, rfl⟩
  have noted (notice : Notice) : Action.Respects Undisturbed (note env notice) :=
    .modify fun _ => ⟨rfl, rfl, rfl, rfl, rfl, rfl, rfl, rfl⟩
  refine .bind .get fun m => ?_
  split
  · exact .bind .get fun _ => .bind (noted _) fun _ => woken
  · exact woken

variable (within : env.Within Undisturbed) (start : Machine World)
include within

theorem invariant : Invariant env (Undisturbed start) fun _ => True where
  note _ before := before.edit rfl rfl rfl rfl rfl rfl
  instrument handle hook _ := (within.notify handle hook).mono fun _ _ same before =>
    trans_of Undisturbed before same
  add _ _ before := before.edit rfl rfl rfl rfl rfl rfl
  timeout before := before.edit rfl rfl rfl rfl rfl rfl
  vector before _ _ _ := before.edit rfl rfl rfl rfl rfl rfl
  load before _ := before.edit rfl rfl rfl rfl rfl rfl
  settleIn _ _ before := before.edit rfl rfl rfl rfl rfl rfl
  addOwner _ before := before.edit rfl rfl rfl rfl rfl rfl
  dropOwner _ before := before.edit rfl rfl rfl rfl rfl rfl

theorem background : Background env (Itself (Undisturbed start)) Eq fun _ => True := by
  have unconcerned : Unconcerned (Itself (Undisturbed start)) :=
    unconcerned_itself (fun _ before => before.edit rfl rfl rfl rfl rfl rfl)
      fun _ before => before.edit rfl rfl rfl rfl rfl rfl
  refine (invariant within start).accord.background unconcerned (fun handle hook _ => ?_)
    fun _ _ _ => trivial
  exact ((within.notify handle hook).mono fun _ _ same before =>
    trans_of Undisturbed before same).itself

omit start

theorem accord (start : Machine World) :
    Accord env (Itself (Undisturbed start)) Eq fun _ => True :=
  (invariant within start).accord

/-- What is called before a dispatch, and the flag that it clears, leave all of this alone. -/
theorem beforeDispatch {vector : Nat}
    (apart : ∀ pair bit, m.interrupts.notification? vector = some (.flag pair bit false) →
      pair.flagRegister ∉ [m.part.stackLow, m.part.stackHigh]) :
    Undisturbed m (Machine.beforeDispatch env vector m).2 := by
  have first : Undisturbed m (notifyVector env vector .beforeInvoke m).2 :=
    ((accord within m).mirrors_notifyVector vector rfl).keeps.related m (refl_of Undisturbed m)
  refine trans_of Undisturbed first ?_
  change Undisturbed _ (notifyInvoked env vector (notifyVector env vector .beforeInvoke m).2).2
  generalize (notifyVector env vector .beforeInvoke m).2 = told at first
  rw [notifyInvoked_eq]
  cases notified : told.interrupts.notification? vector with
  | none => exact refl_of Undisturbed told
  | some notification =>
      cases notification with
      | outside handle => exact (within.notify handle _).related told
      | flag pair bit sticky =>
          cases sticky with
          | true => exact refl_of Undisturbed told
          | false =>
              have stored : told.interrupts.notification? vector =
                  m.interrupts.notification? vector := by
                rw [Controller.notification?, Controller.notification?, first.told]
              have other := apart pair bit (stored.symm.trans notified)
              have sets : Action.Respects (Keeps (Undisturbed told))
                  (setFlagBit env pair bit false).run :=
                ((accord within told).mirrors_setFlagBit (fun _ _ _ => trivial)
                  (fun value ⟨same, before⟩ => ⟨same ▸ rfl, trans_of Undisturbed before
                    (setIoStored (before.part ▸ first.part ▸ other) value)⟩) bit false).keeps.run
              refine (Action.Respects.bind sets fun result => ?_).related told
                (refl_of Undisturbed told)
              cases result with
              | ok _ => exact .pure _
              | error fault => exact ((accord within told).mirrors_note _).keeps

/-- The rest of a dispatch pushes the program counter, jumps and forbids interrupts. -/
theorem run_enterHandler (stacked : m.Stacked part) (room : m.Room 2) (vector : Nat) :
    ∃ entered, (enterHandler env vector).run m = (.ok (), entered) ∧
      Undisturbed
        (forbidden { m.withReturn (m.pc / 2) with pc := m.part.vectorAddress vector }) entered := by
  let rest : Action World Unit := do
    notifyGlobal env .disabled
    advance env 4
    wake env
    notifyVector env vector .afterInvoke
  have lasts : Action.Respects Undisturbed rest :=
    .of_mirrors fun start => .bind ((accord within start).mirrors_notifyGlobal rfl) fun _ =>
      .bind ((background within start).mirrors_advance 4) fun _ =>
        .bind ((respects_wake env).mono fun _ _ same before =>
          trans_of Undisturbed before same).itself fun _ =>
            (accord within start).mirrors_notifyVector vector rfl
  refine ⟨_, ?_, lasts.related _⟩
  rw [enterHandler, Attempt.run_bind, Attempt.run_get]
  dsimp only
  rw [Attempt.run_bind, stacked.run_pushReturn room]
  rfl

omit within in
theorem room {count : Nat} (undisturbed : Undisturbed m next) (room : m.Room count) :
    next.Room count := by
  rw [Room, undisturbed.stackPointer]
  intro address below within
  rw [InSram, undisturbed.part, undisturbed.data]
  exact room address below within

/-- A dispatch leaves the interrupted address on the stack, and no other flag than `I` changed. -/
theorem run_dispatch (stacked : m.Stacked part) (room : m.Room 2) {vector : Nat}
    (apart : ∀ pair bit, m.interrupts.notification? vector = some (.flag pair bit false) →
      pair.flagRegister ∉ [m.part.stackLow, m.part.stackHigh]) :
    ∃ ready entered, (dispatch env vector).run m = (.ok (), entered) ∧ Undisturbed m ready ∧
      Undisturbed (forbidden
        { ready.withReturn (m.pc / 2) with pc := m.part.vectorAddress vector }) entered := by
  let noted : Machine World := { m with world := env.note (.dispatched vector m.cycles) m.world }
  let ready := (Machine.beforeDispatch env vector noted).2
  have before : Undisturbed noted ready := beforeDispatch within apart
  have undisturbed : Undisturbed m ready :=
    trans_of Undisturbed (show Undisturbed m noted from ⟨rfl, rfl, rfl, rfl, rfl, rfl, rfl, rfl⟩)
      before
  obtain ⟨entered, ran, after⟩ := run_enterHandler within (undisturbed.stacked stacked)
    (undisturbed.room room) vector
  rw [undisturbed.pc, undisturbed.part] at after
  exact ⟨ready, entered, (Machine.run_dispatch env vector m).trans ran, undisturbed, after⟩

/-- A return from a handler goes on at the address that it pops, with interrupts allowed. -/
theorem run_execute_reti {word : Nat} {popped : Machine World}
    (pops : popReturn env m = (word, popped)) :
    ∃ done, (execute env (.control .reti)).run m = (.ok 4, done) ∧ done.pc = word * 2 ∧
      done.stackPointer = popped.stackPointer ∧ done.status.i = true := by
  let told := (notifyGlobal env .enabled popped.allowed).2
  have tells : Undisturbed popped.allowed told :=
    ((accord within _).mirrors_notifyGlobal rfl).keeps.related _ (refl_of Undisturbed _)
  have performed : (perform env (.control .reti) (following m.pc (.control .reti))).run m =
      (.ok ⟨word * 2, 4⟩, { told with justReturned := true }) := by
    rw [perform_reti, Attempt.run_bind, Attempt.run_lift, pops]
    rfl
  refine ⟨_, run_execute_of_performed performed, rfl, tells.stackPointer, ?_⟩
  change told.status.i = true
  rw [tells.status]
  rfl

end Undisturbed

/-! ### The stack -/

theorem HoldsReturnOf.of_same {called same : Machine World} (holds : HoldsReturnOf called last)
    (pointer : called.stackPointer = same.stackPointer) (data : called.data = same.data) :
    HoldsReturnOf same last := by
  obtain ⟨samePointer, high, low⟩ := holds
  rw [pointer, data] at high low
  exact ⟨samePointer.trans pointer, high, low⟩

/-- The stack is last in, first out, for any number of bytes that fit into SRAM, and nothing else
changes. A call is returned from to the following instruction, and a dispatch, which changes no flag
but `I`, to where it came in between, however the return address came to lie on the stack at the end
of what was executed meanwhile. -/
theorem stack_returns_what_was_pushed (stacked : m.Stacked m.part) :
    (∀ values : List UInt8, m.Room values.length →
      ∃ pushed bytes, (values.forM (push env)).run m = (.ok (), pushed) ∧
        popMany env values.length pushed =
          (values.reverse, { m with data := { m.data with bytes } }) ∧
        ∀ address, ¬ (address ≤ m.stackPointer.toNat ∧
            m.stackPointer.toNat < address + values.length) →
          bytes[address]? = m.data.bytes[address]?) ∧
    (∀ i : Instr, i.calls = true → m.pc % 2 = 0 → following m.pc i < 2 ^ 17 → m.Room 2 →
      env.Upholds (Stacked m.part) →
      ∃ cycles called, (execute env i).run m = (.ok cycles, called) ∧
        ∀ last, Interlude env (Stacked m.part) called last → HoldsReturnOf called last →
          ∃ done, (execute env (.control .ret)).run last = (.ok 4, done) ∧
            done.pc = following m.pc i ∧ done.stackPointer = m.stackPointer) ∧
    (∀ vector, m.pc % 2 = 0 → m.pc < 2 ^ 17 → m.Room 2 → env.Within Undisturbed →
      (∀ pair bit, m.interrupts.notification? vector = some (.flag pair bit false) →
        pair.flagRegister ∉ [m.part.stackLow, m.part.stackHigh]) →
      ∃ entered, (dispatch env vector).run m = (.ok (), entered) ∧
        entered.status = { m.status with i := false } ∧
        ∀ last, Interlude env (Stacked m.part) entered last → HoldsReturnOf entered last →
          ∃ done, (execute env (.control .reti)).run last = (.ok 4, done) ∧
            done.pc = m.pc ∧ done.stackPointer = m.stackPointer ∧ done.status.i = true) := by
  refine ⟨fun values room => stacked.popMany_of_pushed values room, ?_, ?_⟩
  · intro i calls even near room upholds
    obtain ⟨cycles, target, ran⟩ := stacked.run_execute_of_calls room calls
    refine ⟨cycles, _, ran, fun last interlude holds => ?_⟩
    have stackedCalled : ({ m.withReturn (following m.pc i / 2) with pc := target } :
        Machine World).Stacked m.part := (stacked.withReturn _).edit rfl rfl rfl
    have pops : popReturn env last = _ := stacked.popReturn_of_held room (by omega)
      (stackedCalled.interlude upholds interlude) (holds.of_same rfl rfl)
    have whole : following m.pc i / 2 * 2 = following m.pc i :=
      Nat.div_mul_cancel (Nat.dvd_of_mod_eq_zero (following_even even i))
    exact ⟨_, run_execute_ret pops, whole,
      (stackedCalled.interlude upholds interlude).stackPointer_setStackPointer _⟩
  · intro vector even near room within apart
    obtain ⟨ready, entered, ran, before, after⟩ :=
      Undisturbed.run_dispatch within stacked room apart
    have stackedReady : ready.Stacked m.part := before.stacked stacked
    have stackedEntered : entered.Stacked m.part := by
      refine after.stacked ?_
      exact (stackedReady.withReturn (m.pc / 2)).edit rfl rfl rfl
    have upholds : env.Upholds (Stacked m.part) :=
      within.mono fun _ _ undisturbed stacked => undisturbed.stacked stacked
    refine ⟨entered, ran, ?_, fun last interlude holds => ?_⟩
    · rw [after.status, ← before.status]
      rfl
    · have stackedLast := stackedEntered.interlude upholds interlude
      have pops : popReturn env last = _ := stackedReady.popReturn_of_held (before.room room)
        (by omega) stackedLast (holds.of_same after.stackPointer after.data)
      obtain ⟨done, returned, pc, pointer, allowed⟩ := Undisturbed.run_execute_reti within pops
      refine ⟨done, returned, by omega, ?_, allowed⟩
      rw [pointer, stackedLast.stackPointer_setStackPointer, before.stackPointer]

/-- The machine of a bare part keeps its stack pointer where it was put. -/
theorem Flat.stacked (flat : m.Flat) : m.Stacked m.part where
  same := rfl
  unwatched := flat.unwatched
  window := Nat.le_of_eq flat.window
  low := by
    obtain ⟨kind, installed, placed⟩ := flat.registers _ flat.part.low
    rw [kindAt, installed]
    have apart := flat.part.apart
    simp only [List.nodup_cons, List.mem_cons, List.not_mem_nil, or_false, not_or] at apart
    cases placed with
    | plain _ other => simp at other
    | status place => exact absurd place flat.part.low_ne
    | stackLow value _ => exact ⟨value, rfl⟩
    | stackHigh _ place => exact absurd place apart.2.1
  high := by
    obtain ⟨kind, installed, placed⟩ := flat.registers _ flat.part.high
    rw [kindAt, installed]
    have apart := flat.part.apart
    simp only [List.nodup_cons, List.mem_cons, List.not_mem_nil, or_false, not_or] at apart
    cases placed with
    | plain _ other => simp at other
    | status place => exact absurd place flat.part.high_ne
    | stackLow _ place => exact absurd place.symm apart.2.1
    | stackHigh value _ => exact ⟨value, rfl⟩

/-- A subroutine and a handler are left after a step each, from a stack of eight bytes. -/
theorem stack_returns_what_was_pushed_step :
    let m := new smallPart ⟨.known 0, false, false⟩ ()
    let stepped (m : Machine Unit) := ((step silence).run m).2
    let called := ((execute silence (.relative true 2)).run m).2
    let entered := ((dispatch silence 1).run m).2
    m.Flat ∧
      (∃ pushed bytes, ([1, 2, 3].forM (push silence)).run m = (.ok (), pushed) ∧
        popMany silence 3 pushed = ([3, 2, 1], { m with data := { m.data with bytes } })) ∧
      HoldsReturnOf called (stepped called) ∧
      (∃ done, (execute silence (.control .ret)).run (stepped called) = (.ok 4, done) ∧
        done.pc = 2 ∧ done.stackPointer = m.stackPointer) ∧
      HoldsReturnOf entered (stepped entered) ∧
      ∃ done, (execute silence (.control .reti)).run (stepped entered) = (.ok 4, done) ∧
        done.pc = 0 ∧ done.stackPointer = m.stackPointer ∧ done.status.i = true := by
  intro m stepped called entered
  have flat : m.Flat := flat_new ⟨by decide, by decide, by decide, by decide, by decide⟩ rfl ()
  have room (count : Nat) (fits : count ≤ 8) : m.Room count := by
    have pointer : m.stackPointer.toNat = 263 := by decide +kernel
    have size : m.data.bytes.size = 264 := by decide +kernel
    have start : m.part.sramStart = 256 := rfl
    intro address below within
    rw [InSram, size, start]
    omega
  obtain ⟨lists, calls, dispatches⟩ :=
    @stack_returns_what_was_pushed Unit silence m flat.stacked
  have heldCall : HoldsReturnOf called (stepped called) :=
    ⟨by decide +kernel, by decide +kernel, by decide +kernel⟩
  have heldEntry : HoldsReturnOf entered (stepped entered) :=
    ⟨by decide +kernel, by decide +kernel, by decide +kernel⟩
  refine ⟨flat, ?_, heldCall, ?_, heldEntry, ?_⟩
  · obtain ⟨pushed, bytes, pushes, pops, -⟩ := lists [1, 2, 3] (room 3 (by decide))
    exact ⟨pushed, bytes, pushes, pops⟩
  · obtain ⟨cycles, after, ran, returns⟩ := calls (.relative true 2) rfl (by decide +kernel)
      (by decide +kernel) (room 2 (by decide)) within_silence
    have same : called = after := congrArg Prod.snd ran
    exact returns (stepped called) (.single (same ▸ .step)) (same ▸ heldCall)
  · have quiet : m.interrupts.notification? 1 = none := by decide +kernel
    obtain ⟨after, ran, -, returns⟩ := dispatches 1 (by decide +kernel) (by decide +kernel)
      (room 2 (by decide)) within_silence fun _ _ told => by
        rw [quiet] at told
        cases told
    have same : entered = after := congrArg Prod.snd ran
    exact returns (stepped entered) (.single (same ▸ .step)) (same ▸ heldEntry)

end Machine

end Avr

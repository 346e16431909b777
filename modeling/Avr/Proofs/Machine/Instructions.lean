import Avr.Machine.Step
import Avr.Proofs.Isa.FlagNumber
import Avr.Proofs.Machine.Accesses

/-!
Contract: instructions keep two machines in accord.

Owns:
- instructions that only compute with registers and flags;
- what an accord has to withstand besides accesses: the program counter and the run state;
- every instruction with the probes around it, the dispatch of a handler and sleep as mirrors of
  themselves.

Some accords fail where an instruction returns from a handler, stores to flash or falls asleep, and
nowhere else.
-/

namespace Avr.Machine

open Avr.Isa

variable {World : Type}

/-! ### Computations on registers and flags -/

/-- A change of registers and flags other than `I` that depends on nothing else. -/
structure Computes (change : Machine World → Machine World) : Prop where
  shape : ∀ m, change m = m.compute (change m).data.bytes (change m).status
  flag : ∀ m, (change m).status.i = m.status.i
  same : ∀ m n, m.data.bytes = n.data.bytes → m.status = n.status →
    (change m).data.bytes = (change n).data.bytes ∧ (change m).status = (change n).status

theorem computes_setReg (r : Reg) (value : UInt8) :
    Computes fun m : Machine World => m.setReg r value where
  shape _ := rfl
  flag _ := rfl
  same m n bytes status := by simp only [setReg, setByteAt, bytes, status, and_self]

theorem computes_setPointer (p : Pointer) (value : UInt16) :
    Computes fun m : Machine World => m.setPointer p value where
  shape _ := rfl
  flag _ := rfl
  same m n bytes status := by
    simp only [setPointer, setPair, setReg, setByteAt, bytes, status, and_self]

theorem computes_binary (op : BinaryOp) (rd rr : Reg) :
    Computes (binary op rd rr : Machine World → Machine World) where
  shape m := by cases op <;> rfl
  flag m := by cases op <;> rfl
  same m n bytes status := by
    cases op <;>
      simp only [binary, withResult, withFlags, withWord, setPair, setReg, setByteAt, pair, reg,
        byteAt, bytes, status, and_self]

theorem computes_immediate (op : ImmediateOp) (rd : Reg) (k : UInt8) :
    Computes (immediate op rd k : Machine World → Machine World) where
  shape m := by cases op <;> rfl
  flag m := by cases op <;> rfl
  same m n bytes status := by
    cases op <;>
      simp only [immediate, withResult, withFlags, withWord, setPair, setReg, setByteAt, pair, reg,
        byteAt, bytes, status, and_self]

theorem computes_unary (op : UnaryOp) (r : Reg) :
    Computes (unary op r : Machine World → Machine World) where
  shape m := by cases op <;> rfl
  flag m := by cases op <;> rfl
  same m n bytes status := by
    cases op <;>
      simp only [unary, withResult, setReg, setByteAt, reg, byteAt, bytes, status, and_self]

theorem computes_storeBit (r : Reg) (b : UInt8) :
    Computes (storeBit r b : Machine World → Machine World) where
  shape _ := rfl
  flag _ := rfl
  same m n bytes status := by simp only [storeBit, reg, byteAt, bytes, status, and_self]

theorem computes_loadBit (r : Reg) (b : UInt8) :
    Computes (loadBit r b : Machine World → Machine World) where
  shape _ := rfl
  flag _ := rfl
  same m n bytes status := by
    simp only [loadBit, setReg, setByteAt, reg, byteAt, bytes, status, and_self]

theorem Computing.computes {env : Environment World} {A : Machine World → Machine World → Prop}
    {Twin : HandleList → HandleList → Prop} {Free : Nat → Prop}
    (computing : Computing env A Twin Free) {change : Machine World → Machine World}
    (computes : Computes change) {m n : Machine World} (same : A m n) :
    A (change m) (change n) := by
  have akin := computing.akin same
  obtain ⟨bytes, status⟩ := computes.same m n akin.bytes akin.status
  rw [computes.shape m, computes.shape n, bytes, status]
  exact computing.compute _ _ same (computes.flag n)

/-! ### The program counter and the run state -/

/-- The machine after it fell asleep. -/
def asleep (m : Machine World) : Machine World :=
  { m with sleeping := true, state := .sleeping, innerLoop := false }

/-- The machine after it was woken. -/
def awake (m : Machine World) : Machine World :=
  { m with
    sleeping := false
    state := if m.state = .sleeping then .running else m.state }

/-- The end of a return from a handler: interrupts are allowed after one more instruction. -/
def allowReturning (env : Environment World) (outcome : Outcome) : Attempt World Outcome := do
  enableInterrupts env
  modify fun m => { m with justReturned := true }
  return outcome

/-- The part of a dispatch that follows the calls before it. -/
def enterHandler (env : Environment World) (vector : Nat) : Attempt World Unit := do
  pushReturn env ((← get).pc / 2)
  modify fun m => { m with pc := m.part.vectorAddress vector }
  disableInterrupts env
  advance env 4
  wake env
  notifyVector env vector .afterInvoke

theorem dispatch_eq (env : Environment World) (vector : Nat) :
    dispatch env vector = (do
      note env (.dispatched vector (← get).cycles)
      beforeDispatch env vector
      enterHandler env vector) := rfl

/-- An accord that no flag matters to, not even `I`. -/
def Flagless (A : Machine World → Machine World → Prop) : Prop :=
  ∀ m n status, A m n → A { m with status } { n with status }

/-- An accord that also withstands what else instructions do, apart from some of them, and from
where they go on. -/
structure Performing (env : Environment World) (A : Machine World → Machine World → Prop)
    (Twin : HandleList → HandleList → Prop) (Free : Nat → Prop) : Prop
    extends Accesses env A Twin Free where
  breaking : ∀ {m n}, A m n →
    A { m with state := .stopped, halt := some .break }
      { n with state := .stopped, halt := some .break }

/-- An accord that withstands jumps, too. -/
structure Executing (env : Environment World) (A : Machine World → Machine World → Prop)
    (Twin : HandleList → HandleList → Prop) (Free : Nat → Prop) : Prop
    extends Performing env A Twin Free where
  jump : ∀ {m n} pc, A m n → A { m with pc } { n with pc }

/-- An accord that also withstands the changes of a dispatch, and the passing of time. -/
structure Dispatching (env : Environment World) (A : Machine World → Machine World → Prop)
    (Twin : HandleList → HandleList → Prop) (Free : Nat → Prop) : Prop
    extends Accesses env A Twin Free where
  mirrors_advance : ∀ cycles, Action.Mirrors A (advance env cycles) (advance env cycles)
  jump : ∀ {m n} pc, A m n → A { m with pc } { n with pc }
  wake : ∀ {m n}, A m n → A m.awake n.awake

/-- An accord that also withstands the changes of a step, apart from those of some instructions. -/
structure Stepwise (env : Environment World) (A : Machine World → Machine World → Prop)
    (Twin : HandleList → HandleList → Prop) (Free : Nat → Prop) : Prop
    extends Dispatching env A Twin Free, Executing env A Twin Free where
  count : ∀ {m n}, A m n →
    A { m with instructionsRun := m.instructionsRun + 1 }
      { n with instructionsRun := n.instructionsRun + 1 }
  spend : ∀ {m n}, A m n → A { m with delayCycles := 0 } { n with delayCycles := 0 }
  look : ∀ {m n}, A m n → A { m with innerLoop := false } { n with innerLoop := false }
  halt : ∀ {m n}, A m n → A { m with halt := none } { n with halt := none }

/-- If an instruction is one of those that an accord may fail at, the accord withstands it. -/
structure Handles (env : Environment World) (A : Machine World → Machine World → Prop)
    (i : Instr) : Prop where
  returning : i = .control .reti → ∀ outcome,
    Attempt.Mirrors A (allowReturning env outcome) (allowReturning env outcome)
  storing : i = .control .spm → Attempt.Mirrors A (storeProgram env) (storeProgram env)
  doze : i = .control .sleep → ∀ m n, A m n → A m.asleep n.asleep

/-- What such an instruction changes on its own. -/
theorem Computing.handling {env : Environment World} {A : Machine World → Machine World → Prop}
    {Twin : HandleList → HandleList → Prop} {Free : Nat → Prop}
    (computing : Computing env A Twin Free) {i : Instr}
    (returned : i = .control .reti → ∀ m n, A m n →
      A { m with justReturned := true } { n with justReturned := true })
    (storing : i = .control .spm → Attempt.Mirrors A (storeProgram env) (storeProgram env))
    (doze : i = .control .sleep → ∀ m n, A m n → A m.asleep n.asleep) : Handles env A i where
  returning reti _ := .bind (.lift computing.mirrors_enableInterrupts) fun _ =>
    .bind (.modify (returned reti)) fun _ => .pure _
  storing := storing
  doze := doze

namespace Accesses

variable {env : Environment World} {A : Machine World → Machine World → Prop}
  {Twin : HandleList → HandleList → Prop} {Free : Nat → Prop}
  (accesses : Accesses env A Twin Free)
include accesses

/-! ### Calls of who follows a vector -/

/-- A fault of what is called is recorded where no one receives it. -/
theorem agree_orReport {act : Attempt World Unit} {m n : Machine World}
    (agree : Attempt.Agree A act act m n) (notice : Fault → Notice) :
    Action.Agree A
      (do
        match ← act.run with
        | .ok () => return
        | .error fault => Machine.note env (notice fault) : Action World Unit)
      (do
        match ← act.run with
        | .ok () => return
        | .error fault => Machine.note env (notice fault)) m n := by
  refine Action.Agree.bind agree fun result => Action.Mirrors.agree ?_
  cases result with
  | ok _ => exact .pure _
  | error fault => exact accesses.mirrors_note _

theorem mirrors_notifyInvoked (vector : Nat) :
    Action.Mirrors A (notifyInvoked env vector) (notifyInvoked env vector) := by
  refine .gettingAt fun m n same => ?_
  rw [(accesses.akin same).notification?]
  split
  case h_1 => exact (Action.Mirrors.pure _).agree _ _ same
  case h_2 handle _ => exact (accesses.device handle _ rfl).agree _ _ same
  case h_3 pair bit sticky notified =>
    cases sticky with
    | true => exact (Action.Mirrors.pure _).agree _ _ same
    | false => exact accesses.agree_orReport (accesses.acknowledge same notified) _

/-- To force a vector of a flag sets the flag. -/
theorem mirrors_notifyForced (vector : Nat)
    (raise : ∀ {m n pair bit sticky}, A m n →
      n.interrupts.notification? vector = some (.flag pair bit sticky) →
      Attempt.Agree A (setFlagBit env pair bit true) (setFlagBit env pair bit true) m n) :
    Action.Mirrors A (notifyForced env vector) (notifyForced env vector) := by
  refine .gettingAt fun m n same => ?_
  rw [(accesses.akin same).notification?]
  split
  case h_1 => exact (Action.Mirrors.pure _).agree _ _ same
  case h_2 handle _ => exact (accesses.device handle _ rfl).agree _ _ same
  case h_3 pair bit sticky notified => exact accesses.agree_orReport (raise same notified) _

theorem mirrors_beforeDispatch (vector : Nat) :
    Action.Mirrors A (beforeDispatch env vector) (beforeDispatch env vector) :=
  .bind (accesses.mirrors_notifyVector vector rfl) fun _ => accesses.mirrors_notifyInvoked vector

end Accesses

namespace Dispatching

variable {env : Environment World} {A : Machine World → Machine World → Prop}
  {Twin : HandleList → HandleList → Prop} {Free : Nat → Prop}
  (dispatching : Dispatching env A Twin Free)
include dispatching

/-! ### Dispatches -/

theorem mirrors_wake : Action.Mirrors A (Machine.wake env) (Machine.wake env) := by
  have woken : Action.Mirrors A (modify awake : Action World Unit) (modify awake) :=
    .modify fun _ _ => dispatching.wake
  refine .getting fun m n same => ?_
  rw [(dispatching.akin same).sleeping]
  split
  · refine .getting fun m n same => ?_
    rw [(dispatching.akin same).cycles]
    exact .bind (dispatching.mirrors_note _) fun _ => woken
  · exact woken

theorem mirrors_enterHandler (vector : Nat) :
    Attempt.Mirrors A (enterHandler env vector) (enterHandler env vector) := by
  refine .getting fun m n same => ?_
  rw [(dispatching.akin same).pc]
  refine .bind (dispatching.mirrors_pushReturn _) fun _ => ?_
  refine .bind (.modify fun m n same => ?_) fun _ => ?_
  · have target : m.part.vectorAddress vector = n.part.vectorAddress vector := by
      rw [(dispatching.akin same).part]
    rw [target]
    exact dispatching.jump _ same
  refine .bind (.lift dispatching.mirrors_disableInterrupts) fun _ => ?_
  refine .bind (.lift (dispatching.mirrors_advance 4)) fun _ => ?_
  exact .bind (.lift dispatching.mirrors_wake) fun _ =>
    .lift (dispatching.mirrors_notifyVector vector rfl)

theorem mirrors_dispatch (vector : Nat) :
    Attempt.Mirrors A (dispatch env vector) (dispatch env vector) := by
  refine .getting fun m n same => ?_
  rw [(dispatching.akin same).cycles]
  exact .bind (.lift (dispatching.mirrors_note _)) fun _ =>
    .bind (.lift (dispatching.mirrors_beforeDispatch vector)) fun _ =>
      dispatching.mirrors_enterHandler vector

end Dispatching

namespace Performing

variable {env : Environment World} {A : Machine World → Machine World → Prop}
  {Twin : HandleList → HandleList → Prop} {Free : Nat → Prop}
  (performing : Performing env A Twin Free)
include performing

/-! ### Instructions -/

theorem mirrors_computation {change : Machine World → Machine World} (computes : Computes change) :
    Attempt.Mirrors A (modify change : Attempt World Unit) (modify change) :=
  .modify fun _ _ => performing.computes computes

theorem mirrors_setReg (r : Reg) (value : UInt8) :
    Attempt.Mirrors A (modify fun m => m.setReg r value : Attempt World Unit)
      (modify fun m => m.setReg r value) :=
  performing.mirrors_computation (computes_setReg r value)

theorem mirrors_skipIf (next : Nat) (condition : Bool) :
    Action.Mirrors A (skipIf env next condition) (skipIf env next condition) := by
  unfold skipIf
  split
  · exact .bind (performing.mirrors_readFlash _) fun _ =>
      .bind (performing.mirrors_readFlash _) fun _ => .pure _
  · exact .pure _

theorem mirrors_executeUnary (op : UnaryOp) (r : Reg) (next : Nat) :
    Attempt.Mirrors A (executeUnary env op r next) (executeUnary env op r next) := by
  unfold executeUnary
  split
  · refine .getting fun m n same => ?_
    rw [(performing.akin same).reg]
    exact .bind (performing.mirrors_push _) fun _ => .pure _
  · exact .bind (.lift performing.mirrors_pop) fun _ =>
      .bind (performing.mirrors_setReg r _) fun _ => .pure _
  · exact .bind (performing.mirrors_computation (computes_unary op r)) fun _ => .pure _

/-- `I` is set or cleared with everything that goes with it, the other flags by their masks. -/
theorem mirrors_executeFlag (set : Bool) {s : UInt8} (inRange : s.toNat < 8 ∨ Flagless A) :
    Action.Mirrors A (executeFlag env set s) (executeFlag env set s) := by
  unfold executeFlag
  split
  · split
    · exact performing.mirrors_enableInterrupts
    · exact performing.mirrors_disableInterrupts
  · next other =>
      refine .modify fun m n same => ?_
      rw [(performing.akin same).status]
      rcases inRange with inRange | flagless
      · have lower : s.toNat < 7 := by
          have different : s.toNat ≠ 7 := fun same => other (UInt8.toNat_inj.mp same)
          omega
        exact performing.setFlags same (n.status.assign_i lower set)
      · exact flagless m n _ same

theorem mirrors_executeRegisterBit (op : RegisterBitOp) (r : Reg) (b : UInt8) (next : Nat) :
    Action.Mirrors A (executeRegisterBit env op r b next)
      (executeRegisterBit env op r b next) := by
  unfold executeRegisterBit
  cases op with
  | bst =>
      exact .bind (.modify fun _ _ => performing.computes (computes_storeBit r b)) fun _ => .pure _
  | bld =>
      exact .bind (.modify fun _ _ => performing.computes (computes_loadBit r b)) fun _ => .pure _
  | sbrc | sbrs =>
      refine .getting fun m n same => ?_
      rw [(performing.akin same).reg]
      exact performing.mirrors_skipIf next _

theorem mirrors_executeIoBit (op : IoBitOp) (a b : UInt8) (next : Nat) :
    Attempt.Mirrors A (executeIoBit env op a b next) (executeIoBit env op a b next) := by
  unfold executeIoBit
  cases op with
  | cbi | sbi => exact .bind (performing.mirrors_writeIoBit _ _ _) fun _ => .pure _
  | sbic | sbis =>
      exact .bind (.lift (performing.mirrors_readIoBit _ _)) fun _ =>
        .lift (performing.mirrors_skipIf next _)

theorem mirrors_executeLoadProgram (extended : Bool) (rd : Reg) (increment : Bool) :
    Action.Mirrors A (executeLoadProgram env extended rd increment)
      (executeLoadProgram env extended rd increment) := by
  refine .getting fun m n same => ?_
  dsimp only
  rw [(performing.akin same).extendedZ, (performing.akin same).pointer]
  refine .bind (performing.mirrors_readFlash _) fun value => ?_
  refine .bind (.modify fun _ _ => performing.computes (computes_setReg rd value)) fun _ => ?_
  split
  · split
    · refine .modify fun m n same => ?_
      exact performing.extension _ (performing.computes (computes_setPointer .z _) same)
    · exact .modify fun _ _ => performing.computes (computes_setPointer .z _)
  · exact .pure _

theorem mirrors_pointerAccess (p : Pointer) (mode : PointerMode) :
    Attempt.Mirrors A (answer (pointerAccess · p mode) : Attempt World UInt16)
      (answer (pointerAccess · p mode)) := by
  refine .answer (fun m n same => ?_) fun m n same => ?_
  · simp only [pointerAccess, (performing.akin same).pointer]
    cases mode <;> rfl
  · simp only [pointerAccess, (performing.akin same).pointer]
    cases mode with
    | displaced => exact same
    | postIncrement => exact performing.computes (computes_setPointer p _) same
    | preDecrement => exact performing.computes (computes_setPointer p _) same

theorem mirrors_call (next : Nat) : Attempt.Mirrors A (call env next) (call env next) :=
  performing.mirrors_pushReturn _

theorem mirrors_pointerTarget (cycles : Nat) :
    Attempt.Mirrors A (do return ⟨((← get).pointer .z).toNat * 2, cycles⟩ : Attempt World Outcome)
      (do return ⟨((← get).pointer .z).toNat * 2, cycles⟩) := by
  refine .getting fun m n same => ?_
  rw [(performing.akin same).pointer]
  exact .pure _

theorem mirrors_executeControl {op : ControlOp} (handles : Handles env A (.control op))
    (next : Nat) :
    Attempt.Mirrors A (executeControl env op next) (executeControl env op next) := by
  unfold executeControl
  cases op with
  | ijmp => exact performing.mirrors_pointerTarget 2
  | icall => exact .bind (performing.mirrors_call _) fun _ => performing.mirrors_pointerTarget 3
  | eijmp | eicall =>
      refine .getting fun m n same => ?_
      rw [(performing.akin same).unimplemented]
      exact .throw _
  | ret => exact .bind (.lift performing.mirrors_popReturn) fun _ => .pure _
  | reti => exact .bind (.lift performing.mirrors_popReturn) fun _ => handles.returning rfl _
  | spm => exact .bind (handles.storing rfl) fun _ => .pure _
  | nop | wdr => exact .pure _
  | sleep =>
      refine .getting fun m n same => ?_
      rw [(performing.akin same).cycles]
      exact .bind (.lift (performing.mirrors_note _)) fun _ =>
        .bind (.modify (handles.doze rfl)) fun _ => .pure _
  | «break» =>
      refine .getting fun m n same => ?_
      rw [(performing.akin same).pc]
      exact .bind (.lift (performing.mirrors_note _)) fun _ =>
        .bind (.modify fun _ _ => performing.breaking) fun _ => .pure _

theorem mirrors_perform {i : Instr} (inRange : i.FlagInRange ∨ Flagless A)
    (handles : Handles env A i) (next : Nat) :
    Attempt.Mirrors A (perform env i next) (perform env i next) := by
  cases i with
  | binary op rd rr =>
      cases op with
      | cpse =>
          refine .getting fun m n same => .getting fun m' n' same' => ?_
          rw [(performing.akin same).reg, (performing.akin same').reg]
          exact .lift (performing.mirrors_skipIf next _)
      | _ => exact .bind (performing.mirrors_computation (computes_binary _ rd rr)) fun _ => .pure _
  | immediate op rd k =>
      exact .bind (performing.mirrors_computation (computes_immediate op rd k)) fun _ => .pure _
  | unary op r => exact performing.mirrors_executeUnary op r next
  | flag set s =>
      exact .bind (.lift (performing.mirrors_executeFlag set inRange)) fun _ => .pure _
  | registerBit op r b => exact .lift (performing.mirrors_executeRegisterBit op r b next)
  | branch onSet s k =>
      refine .getting fun m n same => ?_
      rw [(performing.akin same).status, (performing.akin same).relativeTarget]
      exact .pure _
  | relative isCall k =>
      have target (cycles : Nat) : Attempt.Mirrors A
          (do return ⟨(← get).relativeTarget next k, cycles⟩ : Attempt World Outcome)
          (do return ⟨(← get).relativeTarget next k, cycles⟩) := by
        refine .getting fun m n same => ?_
        rw [(performing.akin same).relativeTarget]
        exact .pure _
      cases isCall with
      | true => exact .bind (performing.mirrors_call next) fun _ => target 3
      | false => exact target 2
  | absolute isCall k =>
      cases isCall with
      | true => exact .bind (performing.mirrors_call next) fun _ => .pure _
      | false => exact .pure _
  | input rd a =>
      exact .bind (.lift (performing.mirrors_readIo _)) fun _ =>
        .bind (performing.mirrors_setReg rd _) fun _ => .pure _
  | output a rr =>
      refine .getting fun m n same => ?_
      rw [(performing.akin same).reg]
      exact .bind (performing.mirrors_writeIo _ _) fun _ => .pure _
  | ioBit op a b => exact performing.mirrors_executeIoBit op a b next
  | load rd p mode =>
      refine .bind (performing.mirrors_pointerAccess p mode) fun address => ?_
      exact .bind (.lift (performing.mirrors_readData _)) fun _ =>
        .bind (performing.mirrors_setReg rd _) fun _ => .pure _
  | store p mode rr =>
      refine .getting fun m n same => ?_
      dsimp only
      rw [(performing.akin same).reg]
      exact .bind (performing.mirrors_pointerAccess p mode) fun address =>
        .bind (performing.mirrors_writeData _ _) fun _ => .pure _
  | loadDirect rd k =>
      exact .bind (.lift (performing.mirrors_readData _)) fun _ =>
        .bind (performing.mirrors_setReg rd _) fun _ => .pure _
  | storeDirect k rr =>
      refine .getting fun m n same => ?_
      rw [(performing.akin same).reg]
      exact .bind (performing.mirrors_writeData _ _) fun _ => .pure _
  | loadProgram extended rd increment =>
      exact .bind (.lift (performing.mirrors_executeLoadProgram extended rd increment)) fun _ =>
        .pure _
  | control op => exact performing.mirrors_executeControl handles next
  | undefined word =>
      refine .getting fun m n same => ?_
      rw [(performing.akin same).unimplemented]
      exact .throw _

end Performing

theorem Executing.mirrors_execute {env : Environment World}
    {A : Machine World → Machine World → Prop} {Twin : HandleList → HandleList → Prop}
    {Free : Nat → Prop} (executing : Executing env A Twin Free) {i : Instr}
    (inRange : i.FlagInRange ∨ Flagless A) (handles : Handles env A i) :
    Attempt.Mirrors A (execute env i) (execute env i) := by
  refine .getting fun m n same => ?_
  rw [(executing.akin same).pc]
  exact .bind (executing.mirrors_perform inRange handles _) fun outcome =>
    .bind (.modify fun _ _ => executing.jump _) fun _ => .pure _

namespace Stepwise

variable {env : Environment World} {A : Machine World → Machine World → Prop}
  {Twin : HandleList → HandleList → Prop} {Free : Nat → Prop}
  (stepwise : Stepwise env A Twin Free)
include stepwise

/-! ### Parts of a step -/

/-- An instruction with the probes around it, which may differ. -/
theorem mirrors_runInstruction (pc : Nat) {i : Instr} (inRange : i.FlagInRange ∨ Flagless A)
    (handles : Handles env A i) {own own' : HandleList}
    (twin : Twin own own') :
    Attempt.Mirrors A (runInstruction env pc i own) (runInstruction env pc i own') := by
  refine .getting fun m n same => ?_
  have all := stepwise.twin same fun machine => machine.probes
  refine .bind (.lift (stepwise.instruments _ rfl all)) fun _ => ?_
  refine .bind (.lift (stepwise.instruments _ rfl twin)) fun _ => ?_
  refine .bind (stepwise.mirrors_execute inRange handles) fun cycles => ?_
  refine .bind (.lift (stepwise.mirrors_advance cycles)) fun _ => ?_
  refine .bind (.lift (stepwise.instruments _ rfl twin)) fun _ => ?_
  refine .bind (.lift (stepwise.instruments _ rfl all)) fun _ => ?_
  exact .modify fun _ _ => stepwise.count

theorem mirrors_spendDelay : Action.Mirrors A (spendDelay env) (spendDelay env) := by
  refine .getting fun m n same => ?_
  dsimp only
  rw [(stepwise.akin same).delayCycles]
  split
  · exact .bind (.modify fun _ _ => stepwise.spend) fun _ => stepwise.mirrors_advance _
  · exact .pure _

theorem mirrors_sleepOn : Action.Mirrors A (sleepOn env) (sleepOn env) := by
  refine .getting fun m n same => ?_
  rw [(stepwise.akin same).sleepCycles]
  exact .bind (stepwise.mirrors_advance _) fun _ => .modify fun _ _ => stepwise.look

theorem mirrors_takeHalt :
    Attempt.Mirrors A (takeHalt : Stepping World Unit) (takeHalt : Stepping World Unit) := by
  refine .getting fun m n same => ?_
  dsimp only
  rw [(stepwise.akin same).halt]
  refine .bind (.modify fun _ _ => stepwise.halt) fun _ => ?_
  split
  · exact .pure _
  · exact .throw _
  · exact .throw _
  · exact .throw _

end Stepwise

end Avr.Machine

import Avr.Proofs.Machine.Alignment
import Avr.Proofs.Machine.Sturdy

/-!
Contract: a program cannot make its machine fail by what it reads and writes.

Owns:
- accesses to IO registers, to the data space and to the stack, which always complete;
- instructions, which complete unless they do not exist on any part;
- dispatches of handlers, and the faults of a step.

Any address may be the target of a store or of a push, so every branch on which a write is refused
has to be out of reach. Reads are never refused.
-/

namespace Avr

open Avr.Interrupt Avr.Io Avr.Isa

/-- Instructions that exist on no part. -/
def Isa.Instr.Absent : Instr → Prop
  | .control .eijmp | .control .eicall | .undefined _ => True
  | _ => False

instance : DecidablePred Instr.Absent := fun i => by
  unfold Instr.Absent
  split <;> infer_instance

namespace Machine

variable {World : Type} {env : Environment World} {part : Part} {m next : Machine World}

/-- The computation completes on every sturdy machine and leaves a sturdy one. -/
abbrev Secure (part : Part) {α : Type} (act : Attempt World α) : Prop :=
  Sustains (Sturdy part) (fun _ => False) act

theorem Secure.run {α : Type} {act : Attempt World α} (secure : Secure part act)
    (sturdy : m.Sturdy part) :
    ∃ value next, act.run m = (.ok value, next) ∧ next.Sturdy part := by
  rcases ran : act.run m with ⟨fault | value, next⟩
  · exact (secure.failed m fault next sturdy ran).1.elim
  · exact ⟨value, next, rfl, secure.completed m value next sturdy ran⟩

theorem secure_attempt {change : Machine World → Except Fault (Machine World)}
    (changes : ∀ m, m.Sturdy part → ∃ next, change m = .ok next ∧ next.Sturdy part) :
    Secure part (attempt change) := by
  constructor
  all_goals
    intro m result last sturdy ran
    obtain ⟨next, changed, after⟩ := changes m sturdy
    rw [Attempt.run_attempt, changed] at ran
    cases ran
  exact after

section Upholds

variable (upholds : env.Upholds (Sturdy part))
include upholds

/-! ### Interrupts -/

theorem secure_changeVector (half : Half) (set : Bool) {hook : Nat → Hook} {vector : Nat}
    (instrument : (hook vector).isInstrument = true) (inside : vector < part.vectors) :
    Secure part (changeVector env (half.change set) hook vector) := by
  refine .bind (secure_attempt fun m sturdy => ?_) fun _ => sustains_of_action
    ((background_sturdy upholds).mirrors_notifyVector vector instrument).keeps
  obtain ⟨table, changed⟩ := half.exists_change set (sturdy.vectors.symm ▸ inside)
  exact ⟨m.setTable table, by rw [changed]; rfl,
    sturdy.edit rfl rfl rfl (half.size_of_change set changed) rfl rfl⟩

theorem secure_setPosted {vector : Nat} (inside : vector < part.vectors) (posted : Bool) :
    Secure part (setPosted env vector posted) := by
  cases posted with
  | true => exact secure_changeVector upholds .flags true rfl inside
  | false => exact secure_changeVector upholds .flags false rfl inside

theorem secure_setEnabled {vector : Nat} (inside : vector < part.vectors) (enabled : Bool) :
    Secure part (setEnabled env vector enabled) := by
  cases enabled with
  | true => exact secure_changeVector upholds .mask true rfl inside
  | false => exact secure_changeVector upholds .mask false rfl inside

section Pair

variable {pair : FlagPair} (free : FreePair (· < part.vectors) pair) (old new : UInt8)
include free

theorem secure_syncPosted : Secure part (syncPosted env pair old new) :=
  .forM _ fun (_, _) changed =>
    secure_setPosted upholds (free _ _ (mem_mapped_of_changed changed)) _

theorem secure_syncEnabled : Secure part (syncEnabled env pair old new) :=
  .forM _ fun (_, _) changed =>
    secure_setEnabled upholds (free _ _ (mem_mapped_of_changed changed)) _

end Pair

/-! ### Self-programming -/

section Ready

variable (ready : part.spmReady < part.vectors)
include ready

theorem secure_writeSpmControl (value : UInt8) : Secure part (writeSpmControl env value) := by
  have stores : Secure part
      (do
        modify fun m => m.modifySpm fun unit => { unit with control := armedValue value }
        setPosted env (← get).part.spmReady (reportsReady (armedValue value)) :
          Attempt World Unit) := by
    refine .bind (.lift fun _ sturdy => sturdy.modifySpm fun _ => id) fun _ => ?_
    refine .get fun m sturdy => ?_
    rw [sturdy.same]
    exact secure_setPosted upholds ready _
  unfold writeSpmControl
  split
  · refine .bind (sustains_of_action (mirrors_unschedule_sturdy upholds _).keeps) fun _ => ?_
    exact .bind (sustains_of_action ((background_sturdy upholds).mirrors_schedule _ _).keeps)
      fun _ => stores
  · exact stores

theorem secure_performStore (spmUnit : SelfProgramming) :
    Secure part (performStore env spmUnit) := by
  have keeps : Secure part (liftM (keepOperation env) : Attempt World Unit) :=
    sustains_of_action (background_sturdy upholds).mirrors_keepOperation.keeps
  have schedules (page : Nat) (contents : Option (List UInt8)) :
      Secure part (liftM (schedulePage env page contents) : Attempt World Unit) :=
    sustains_of_action ((background_sturdy upholds).mirrors_schedulePage page contents).keeps
  refine .get fun m sturdy => ?_
  dsimp only
  split
  case h_1 =>
    refine .bind (.get fun _ _ => secure_writeSpmControl upholds ready _) fun _ => ?_
    refine .bind (.lift fun later sturdy => sturdy.modifySpm fun unit page => ?_) fun _ => keeps
    rwa [fillBuffer, List.length_set, List.length_set]
  case h_2 => exact .bind keeps fun _ => schedules _ _
  case h_3 =>
    refine .bind keeps fun _ => .get fun later _ => ?_
    refine .bind (.lift fun later sturdy' => sturdy'.modifySpm fun unit _ => ?_) fun _ =>
      schedules _ _
    rw [erasedPage, List.length_replicate, sturdy.same]
  case h_4 | h_5 => exact keeps
  case h_6 => exact .pure fun _ => id

end Ready

theorem secure_storeProgram : Secure part (storeProgram env) := by
  refine .get fun m sturdy => ?_
  split
  · exact .pure fun _ => id
  · next unit found =>
    exact secure_performStore upholds (sturdy.unit unit found).1.ready unit

/-- The control register is there only together with the unit. -/
theorem secure_writeSpmControl_of_served (sturdy : m.Sturdy part)
    (served : Kind.Served part.vectors m.spm.isSome (.device .selfProgramming)) (value : UInt8) :
    Secure part (writeSpmControl env value) := by
  obtain ⟨unit, found⟩ := Option.isSome_iff_exists.mp served
  exact secure_writeSpmControl upholds (sturdy.unit unit found).1.ready value

/-! ### IO registers -/

theorem secure_writeReserved (register : Nat) (value : UInt8) :
    Secure part (writeReserved env register value) := by
  refine .get fun m sturdy => ?_
  rw [sturdy.lenient]
  exact sustains_of_action ((background_sturdy upholds).mirrors_note _).keeps

section Register

variable {register : Nat} (inside : register < min part.ioSize 256)
include inside

theorem secure_writeUnwatched (value : UInt8) :
    Secure part (writeUnwatched env register value) := by
  have stores (value : UInt8) : Secure part
      (modify fun m => m.setIoStored register value : Attempt World Unit) :=
    .lift fun _ sturdy => sturdy.setIoStored register value
  refine .get fun m sturdy => ?_
  have served := sturdy.registers register
  split
  case h_1 missing =>
    rw [Option.map_eq_none_iff, Array.getElem?_eq_none_iff, sturdy.window] at missing
    omega
  case h_2 | h_3 | h_4 => exact stores value
  case h_5 => exact sustains_of_action ((performing_sturdy upholds).mirrors_setStatus value).keeps
  case h_6 old pair found =>
    exact .bind (stores _) fun _ => secure_syncPosted upholds (served _ found) _ _
  case h_7 old pair found =>
    exact .bind (stores _) fun _ => secure_syncEnabled upholds (served _ found) _ _
  case h_8 => exact secure_writeReserved upholds register value
  case h_9 device found =>
    cases device with
    | selfProgramming =>
        exact secure_writeSpmControl_of_served upholds sturdy (served _ found) value
    | outside handle => exact (served _ found).elim

theorem secure_writeBitUnwatched (bit : Nat) (value : Bool) :
    Secure part (writeBitUnwatched env register bit value) := by
  refine .get fun m sturdy => ?_
  have served := sturdy.registers register
  split
  case h_1 missing =>
    rw [Option.map_eq_none_iff, Array.getElem?_eq_none_iff, sturdy.window] at missing
    omega
  case h_2 =>
    split
    · exact secure_writeUnwatched upholds inside _
    · exact .pure fun _ => id
  case h_3 device found =>
    cases device with
    | selfProgramming =>
        exact .get fun _ _ =>
          secure_writeSpmControl_of_served upholds sturdy (served _ found) _
    | outside handle => exact (served _ found).elim
  case h_4 =>
    exact .bind (sustains_of_action ((performing_sturdy upholds).mirrors_readUnwatched _).keeps)
      fun _ => secure_writeUnwatched upholds inside _

omit inside in
theorem secure_notifyAll (watches : HandleList) {hook : Hook}
    (instrument : hook.isInstrument = true) :
    Secure part (liftM (notifyAll env watches hook) : Attempt World Unit) :=
  sustains_of_action ((background_sturdy upholds).instruments hook instrument rfl).keeps

omit inside in
theorem secure_aroundAttempt {before after : Hook} (watches : HandleList)
    {act : Attempt World Unit} (secure : Secure part act) (first : before.isInstrument = true)
    (last : after.isInstrument = true) :
    Secure part (aroundAttempt env before watches after act) :=
  .bind (secure_notifyAll upholds watches first) fun _ => .bind secure fun _ =>
    secure_notifyAll upholds watches last

theorem secure_writeIo (value : UInt8) : Secure part (writeIo env register value) := by
  rw [writeIo_eq]
  exact .get fun _ _ =>
    secure_aroundAttempt upholds _ (secure_writeUnwatched upholds inside value) rfl rfl

theorem secure_writeIoBit (bit : Nat) (value : Bool) :
    Secure part (writeIoBit env register bit value) := by
  rw [writeIoBit_eq]
  exact .get fun _ _ =>
    secure_aroundAttempt upholds _ (secure_writeBitUnwatched upholds inside bit value) rfl rfl

end Register

/-! ### The data space and the stack -/

theorem secure_writeData (address : UInt16) (value : UInt8) :
    Secure part (writeData env address value) := by
  refine .get fun m _ => .bind (secure_notifyAll upholds _ rfl) fun _ => .get fun m sturdy => ?_
  split
  · next register found =>
    have inside : register < min part.ioSize 256 := by
      rw [ioIndex?, sturdy.window] at found
      split at found
      · next window =>
        cases found
        exact window.2
      · cases found
    exact .bind (secure_writeIo upholds inside value) fun _ => secure_notifyAll upholds _ rfl
  · exact .bind (sustains_of_action ((performing_sturdy upholds).mirrors_writeMemory _ _).keeps)
      fun _ => secure_notifyAll upholds _ rfl

theorem secure_push (value : UInt8) : Secure part (push env value) :=
  .get fun _ _ => .bind (secure_writeData upholds _ value) fun _ =>
    .lift fun _ sturdy => (sturdy.setIoStored _ _).setIoStored _ _

theorem secure_pushReturn (word : Nat) : Secure part (pushReturn env word) :=
  .bind (secure_push upholds _) fun _ => secure_push upholds _

/-! ### Instructions -/

theorem keeps_perform_sturdy (i : Instr) (next : Nat) :
    Attempt.Respects (Keeps (Sturdy part)) (perform env i next) := by
  have handles : Handles env (Itself (Sturdy part)) i :=
    (programInvariant_sturdy upholds).computing.handles
      (fun _ _ sturdy => sturdy.edit rfl rfl rfl rfl rfl rfl)
      (fun _ => (background_sturdy upholds).mirrors_storeProgram.keeps)
      fun _ _ sturdy => sturdy.edit rfl rfl rfl rfl rfl rfl
  exact ((performing_sturdy upholds).mirrors_perform
    (.inr fun _ _ _ ⟨same, sturdy⟩ => ⟨same ▸ rfl, sturdy.edit rfl rfl rfl rfl rfl rfl⟩) handles
    next).keeps

/-- Instructions without writes have no branch on which they fail. -/
theorem secure_of_raises {i : Instr} {next : Nat}
    (raises : Attempt.Raises (fun _ => False) (perform env i next)) :
    Secure part (perform env i next) :=
  sustains_of_raises (keeps_perform_sturdy upholds i next) raises

omit upholds in
theorem secure_done (outcome : Outcome) : Secure part (pure outcome : Attempt World Outcome) :=
  .pure fun _ => id

omit upholds in
theorem secure_reading (outcome : Machine World → Outcome) :
    Secure part (do return outcome (← get) : Attempt World Outcome) :=
  .get fun _ _ => secure_done _

theorem secure_control {op : ControlOp} (exist : ¬ (Instr.control op).Absent) (next : Nat) :
    Secure part (perform env (.control op) next) := by
  cases op with
  | ijmp => exact secure_reading fun m => ⟨(m.pointer .z).toNat * 2, 2⟩
  | icall =>
      exact .bind (secure_pushReturn upholds _) fun _ =>
        secure_reading fun m => ⟨(m.pointer .z).toNat * 2, 3⟩
  | eijmp | eicall => exact absurd trivial exist
  | ret => exact secure_of_raises upholds (.bind (.of_action _) fun _ => .done _)
  | reti =>
      exact secure_of_raises upholds (.bind (.of_action _) fun _ => .bind (.of_action _) fun _ =>
        .bind (.modify _) fun _ => .done _)
  | spm => exact .bind (secure_storeProgram upholds) fun _ => secure_done _
  | nop | wdr => exact secure_done _
  | sleep | «break» =>
      exact secure_of_raises upholds (.getting fun _ => .bind (.of_action _) fun _ =>
        .bind (.modify _) fun _ => .done _)

theorem secure_perform {i : Instr} (fields : i.FieldsInRange) (exist : ¬ i.Absent) (next : Nat) :
    Secure part (perform env i next) := by
  have plain (raises : Attempt.Raises (fun _ => False) (perform env i next)) :
      Secure part (perform env i next) := secure_of_raises upholds raises
  have calls : Secure part (call env next) := secure_pushReturn upholds _
  cases i with
  | binary op rd rr =>
      cases op with
      | cpse => exact plain (.getting fun _ => .getting fun _ => .of_action _)
      | _ => exact plain (.bind (.modify _) fun _ => .done _)
  | immediate op rd k => exact plain (.bind (.modify _) fun _ => .done _)
  | unary op r =>
      cases op with
      | push => exact .get fun _ _ => .bind (secure_push upholds _) fun _ => secure_done _
      | pop => exact plain (.bind (.of_action _) fun _ => .bind (.modify _) fun _ => .done _)
      | _ => exact plain (.bind (.modify _) fun _ => .done _)
  | flag set s => exact plain (.bind (.of_action _) fun _ => .done _)
  | registerBit op r b => exact plain (.of_action _)
  | branch onSet s k => exact secure_reading fun m => _
  | relative isCall k =>
      cases isCall with
      | true => exact .bind calls fun _ => secure_reading fun m => ⟨m.relativeTarget next k, 3⟩
      | false => exact secure_reading fun m => ⟨m.relativeTarget next k, 2⟩
  | absolute isCall k =>
      cases isCall with
      | true => exact .bind calls fun _ => secure_done _
      | false => exact secure_done _
  | input rd a => exact plain (.bind (.of_action _) fun _ => .bind (.modify _) fun _ => .done _)
  | output a rr =>
      exact .get fun _ sturdy =>
        .bind (secure_writeIo upholds (sturdy.register_lt fields) _) fun _ => secure_done _
  | ioBit op a b =>
      have named : a.toNat < 64 := Nat.lt_trans fields (by decide)
      cases op with
      | cbi | sbi =>
          exact .bind (.given fun _ sturdy =>
            secure_writeIoBit upholds (sturdy.register_lt named) _ _) fun _ => secure_done _
      | sbic | sbis => exact plain (.bind (.of_action _) fun _ => .of_action _)
  | load rd p mode =>
      exact plain (.bind (.of_action _) fun _ => .bind (.of_action _) fun _ =>
        .bind (.modify _) fun _ => .done _)
  | store p mode rr =>
      refine .get fun _ _ => .bind ?_ fun _ => .bind (secure_writeData upholds _ _) fun _ => secure_done _
      exact sustains_of_raises ((performing_sturdy upholds).mirrors_pointerAccess p mode).keeps
        (.of_action _)
  | loadDirect rd k =>
      exact plain (.bind (.of_action _) fun _ => .bind (.modify _) fun _ => .done _)
  | storeDirect k rr =>
      exact .get fun _ _ => .bind (secure_writeData upholds _ _) fun _ => secure_done _
  | loadProgram extended rd increment => exact plain (.bind (.of_action _) fun _ => .done _)
  | control op => exact secure_control upholds exist next
  | undefined word => exact absurd trivial exist

theorem secure_execute {i : Instr} (fields : i.FieldsInRange) (exist : ¬ i.Absent) :
    Secure part (execute env i) :=
  .get fun _ _ => .bind (secure_perform upholds fields exist _) fun _ =>
    .bind (.lift fun _ sturdy => sturdy.edit rfl rfl rfl rfl rfl rfl) fun _ => .pure fun _ => id

end Upholds

/-- An instruction that does not exist changes nothing. -/
theorem run_execute_of_absent (env : Environment World) {i : Instr} (absent : i.Absent)
    (m : Machine World) : (execute env i).run m = (.error (m.unimplemented i), m) := by
  cases i with
  | control op => cases op <;> first | rfl | exact absent.elim
  | undefined word => rfl
  | _ => exact absent.elim

/-! ### Dispatches and steps -/

/-- The faults that a step of a sturdy machine can end in. -/
inductive Fatal (part : Part) : Fault → Prop where
  | absent (pc : Nat) {i : Instr} (absent : i.Absent) :
      Fatal part (.unimplemented pc i.encode.1 i.mnemonic)
  | misaligned {pc : Nat} (odd : pc % 2 ≠ 0) : Fatal part (.misaligned pc)
  | outside {pc : Nat} (even : pc % 2 = 0) (outside : part.flashSize / 2 ≤ pc / 2) :
      Fatal part (.outOfBounds "flash" pc)

theorem Sturdy.fetched (sturdy : m.Sturdy part) {fetched : Fetched} {flash : Flash}
    (fetches : m.flash.fetch m.pc = .ok (fetched, flash)) :
    ({ m with flash } : Machine World).Sturdy part := by
  have words := Flash.size_slots_apply m.flash (.fetch m.pc)
  rw [Flash.apply, fetches] at words
  exact sturdy.setFlash (sturdy.flash.of_fetched fetches) words

theorem Sturdy.fatal_of_fetch (sturdy : m.Sturdy part) {fault : Fault}
    (refused : m.flash.fetch m.pc = .error fault) : Fatal part fault := by
  rcases Flash.fetch_refused refused with ⟨odd, rfl⟩ | ⟨even, outside, rfl⟩
  · exact .misaligned odd
  · exact .outside even (sturdy.words ▸ outside)

section Upholds

variable (upholds : env.Upholds (Sturdy part))
include upholds

theorem entering_sturdy (F : Fault → Prop) : Entering env (Sturdy part) F fun _ => True where
  toAccesses := (performing_sturdy upholds).toAccesses
  advances cycles := ((background_sturdy upholds).mirrors_advance cycles).keeps
  push word := (secure_pushReturn upholds word).imp (fun _ => id) fun _ _ failed => failed.1.elim
  enter _ sturdy := sturdy.edit rfl rfl rfl rfl rfl rfl
  wake sturdy := sturdy.edit rfl rfl rfl rfl rfl rfl

theorem secure_dispatch (vector : Nat) : Secure part (dispatch env vector) :=
  (entering_sturdy upholds _).sustains_dispatch vector

theorem polling_sturdy : Polling env (Sturdy part) (Fatal part) fun _ => True where
  toEntering := entering_sturdy upholds _
  fetch := sustains_fetch (fun _ _ _ sturdy fetches => sturdy.fetched fetches)
    fun _ _ sturdy refused => sturdy.fatal_of_fetch refused
  spend sturdy := sturdy.edit rfl rfl rfl rfl rfl rfl
  look _ sturdy := sturdy.edit rfl rfl rfl rfl rfl rfl
  stale _ sturdy := sturdy.edit rfl rfl rfl rfl rfl rfl
  returned _ sturdy := sturdy.edit rfl rfl rfl rfl rfl rfl

theorem sustains_execute_sturdy {i : Instr} (fields : i.FieldsInRange) :
    Sustains (Sturdy part) (Fatal part) (execute env i) := by
  by_cases absent : i.Absent
  · constructor
    all_goals
      intro m result next sturdy ran
      rw [run_execute_of_absent env absent] at ran
      cases ran
    exact ⟨.absent m.pc absent, sturdy⟩
  · exact (secure_execute upholds fields absent).imp (fun _ => id) fun _ _ failed =>
      failed.1.elim

theorem ensures_proceed_sturdy (pc : Nat) (owed : Bool) {fetched : Fetched}
    (fields : ∀ i, Flash.delivered? fetched = some i → i.FieldsInRange) :
    Attempt.Ensures (Sturdy part) (proceed env pc owed fetched) (Sturdy part)
      (FailsWith (Sturdy part) (Fatal part)) := by
  have polling := polling_sturdy upholds
  have runs (i : Instr) (own : HandleList) (fields : i.FieldsInRange) :
      Attempt.Ensures (Sturdy part) (orBreak (runInstruction env pc i own)) (Sturdy part)
        (FailsWith (Sturdy part) (Fatal part)) :=
    (polling.sustains_runInstruction (sustains_execute_sturdy upholds fields)
      (fun sturdy => sturdy.edit rfl rfl rfl rfl rfl rfl) pc own).orBreak
  cases fetched with
  | plain i => exact runs i [] (fields i rfl)
  | probed i own => exact runs i own (fields i rfl)
  | paused => exact polling.ensures_pauseAt pc owed

/-- What flash delivers is decoded, so its fields are in range. -/
theorem ensures_stepInstruction_sturdy (owed : Bool) :
    Attempt.Ensures (Sturdy part) (stepInstruction env owed) (Sturdy part)
      (FailsWith (Sturdy part) (Fatal part)) := by
  have proceeds {m : Machine World} (sturdy : m.Sturdy part) {fetched : Fetched} {flash : Flash}
      (fetches : m.flash.fetch m.pc = .ok (fetched, flash)) :
      Attempt.Ensures (Sturdy part) (proceed env m.pc owed fetched) (Sturdy part)
        (FailsWith (Sturdy part) (Fatal part)) := by
    refine ensures_proceed_sturdy upholds m.pc owed fun i delivers => ?_
    obtain ⟨index, rfl⟩ := (sturdy.flash.of_fetch fetches).2 i delivers
    exact fieldsInRange_decode _ _
  constructor
  · intro m value next sturdy ran
    rw [run_stepInstruction] at ran
    rcases fetches : m.flash.fetch m.pc with fault | ⟨fetched, flash⟩ <;> rw [fetches] at ran
    · cases ran
    · exact (proceeds sturdy fetches).completed _ _ _ (sturdy.fetched fetches) ran
  · intro m broken next sturdy ran
    rw [run_stepInstruction] at ran
    rcases fetches : m.flash.fetch m.pc with fault | ⟨fetched, flash⟩ <;> rw [fetches] at ran
    · cases ran
      exact ⟨fun _ same => Break.failed.inj same ▸ sturdy.fatal_of_fetch fetches, sturdy⟩
    · exact (proceeds sturdy fetches).failed _ _ _ (sturdy.fetched fetches) ran

theorem ensures_step_sturdy :
    Attempt.Ensures (Sturdy part) (step env) (Sturdy part)
      (FailsWith (Sturdy part) (Fatal part)) :=
  ensures_step_of_work
    ((polling_sturdy upholds).ensures_work_of_stepInstruction (fun _ _ => id)
      (ensures_stepInstruction_sturdy upholds) fun _ => id)
    fun sturdy => sturdy.edit rfl rfl rfl rfl rfl rfl

theorem Sturdy.step (sturdy : m.Sturdy part) :
    ((Machine.step env).run m).2.Sturdy part ∧
      ∀ fault, ((Machine.step env).run m).1 = .error (.failed fault) → Fatal part fault := by
  rcases ran : (Machine.step env).run m with ⟨broken | value, next⟩
  · obtain ⟨fatal, after⟩ := (ensures_step_sturdy upholds).failed m broken next sturdy ran
    exact ⟨after, fun fault same => fatal fault (Except.error.inj same)⟩
  · exact ⟨(ensures_step_sturdy upholds).completed m value next sturdy ran, nofun⟩

end Upholds

/-! ### The main result -/

/-- The two bytes that a fill stores lie in the page buffer. -/
theorem Sturdy.fill_inside (sturdy : m.Sturdy part) {unit : SelfProgramming}
    (found : m.spm = some unit) (address : Nat) :
    address % part.pageSize / 2 * 2 + 1 < unit.buffer.length := by
  obtain ⟨programmable, length⟩ := sturdy.unit unit found
  have even := programmable.even
  have inside := Nat.mod_lt address programmable.positive
  omega

/-- Whatever a program reads and writes, through whatever pointers, it can make its machine fail only
by an instruction that does not exist, which changes nothing, or by a program counter between words
or outside of flash. Handlers are always dispatched.

Machines are sturdy from the start, if their part has the registers that instructions can name, and
they stay so when flag pairs are installed. -/
theorem programs_fail_only_at_missing_instructions (upholds : env.Upholds (Sturdy part)) :
    (∀ settings (world : World), 64 ≤ part.ioSize → settings.strict = false →
      (settings.reprogrammable = true → part.Programmable) →
      (new part settings world).Sturdy part) ∧
    (∀ pair, Attempt.Respects (Keeps (Sturdy part)) (installPair pair : Attempt World Unit)) ∧
    ∀ m : Machine World, m.Sturdy part →
      (∀ word next, ((Instr.decode word next).Absent ∧
          (execute env (.decode word next)).run m =
            (.error (m.unimplemented (.decode word next)), m)) ∨
        (¬ (Instr.decode word next).Absent ∧ ∃ cycles done,
          (execute env (.decode word next)).run m = (.ok cycles, done) ∧ done.Sturdy part)) ∧
      (∀ unit address, m.spm = some unit →
        address % part.pageSize / 2 * 2 + 1 < unit.buffer.length) ∧
      (∀ vector, ∃ done, (dispatch env vector).run m = (.ok (), done) ∧ done.Sturdy part) ∧
      ((step env).run m).2.Sturdy part ∧
      ∀ fault, ((step env).run m).1 = .error (.failed fault) → Fatal part fault := by
  refine ⟨fun _ world => sturdy_new world, keeps_installPair, fun m sturdy => ?_⟩
  refine ⟨fun word next => ?_, fun unit address found => sturdy.fill_inside found address,
    fun vector => ?_, sturdy.step upholds⟩
  · by_cases absent : (Instr.decode word next).Absent
    · exact .inl ⟨absent, run_execute_of_absent env absent m⟩
    · exact .inr ⟨absent, (secure_execute upholds (fieldsInRange_decode _ _) absent).run sturdy⟩
  · obtain ⟨_, done, ran, after⟩ := (secure_dispatch upholds vector).run sturdy
    exact ⟨done, ran, after⟩

/-- A store through a pointer into the middle of the IO registers completes, and `EIJMP` fails and
changes nothing. -/
theorem programs_fail_only_at_missing_instructions_pointed :
    let part := { smallPart with spmReady := 1 }
    let start := new part ⟨.known 0, true, false⟩ ()
    let m := { start.compute (start.setPair 26 0x88).data.bytes start.status with pc := 5 }
    silence.Upholds (Sturdy part) ∧ start.Sturdy part ∧ m.Sturdy part ∧
      Instr.decode 0x9419 0 = .control .eijmp ∧
      (execute silence (.control .eijmp)).run m = (.error (.unimplemented 5 0x9419 "EIJMP"), m) ∧
      Instr.decode 0x920C 0 = .store .x (.displaced 0) 0 ∧
      m.kindAt (0x88 - part.ioStart) = some (.device .selfProgramming) ∧
      ∃ cycles done,
        (execute silence (.store .x (.displaced 0) 0)).run m = (.ok cycles, done) ∧
          done.Sturdy part := by
  intro part start m
  have upholds : silence.Upholds (Sturdy part) := upholds_sturdy within_silence
  obtain ⟨made, -, safe⟩ := programs_fail_only_at_missing_instructions upholds
  have sturdy : start.Sturdy part :=
    made ⟨.known 0, true, false⟩ () (by decide) rfl fun _ => ⟨by decide, by decide, by decide⟩
  have moved : m.Sturdy part := sturdy.anywhere 5 _ _
  obtain ⟨executes, -⟩ := safe m moved
  have missing : Instr.decode 0x9419 0 = .control .eijmp := by decide +kernel
  have stores : Instr.decode 0x920C 0 = .store .x (.displaced 0) 0 := by decide +kernel
  refine ⟨upholds, sturdy, moved, missing, ?_, stores, by decide +kernel, ?_⟩
  · rcases executes 0x9419 0 with ⟨-, failed⟩ | ⟨present, -⟩
    · rwa [missing] at failed
    · rw [missing] at present
      exact absurd trivial present
  · rcases executes 0x920C 0 with ⟨absent, -⟩ | ⟨-, completes⟩
    · rw [stores] at absent
      exact absent.elim
    · rwa [stores] at completes

end Machine

end Avr

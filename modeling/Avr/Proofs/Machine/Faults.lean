import Avr.Machine.Execute
import Avr.Proofs.Machine.Accesses

/-!
Contract: what a running program can fail with.

Owns:
- the statement that a computation ends well, with what it then results in, or fails in some way;
- the faults of a running program, by what raises them;
- accesses to IO registers, to the data space and to the stack, and the store instruction;
- instructions, with where execution goes on after them.

Of a fetch nothing is said here: it fails by where the program counter is.
-/

namespace Avr

variable {World α β ε : Type}

/-! ### Ends of computations -/

/-- A computation that completes leaves a result and a machine with `Q`, and one that fails does so
with `F`, whatever machine it starts from. -/
structure Attempt.Ends (Q : α → Machine World → Prop) (F : ε → Prop)
    (act : ExceptT ε (Action World) α) : Prop where
  completed : ∀ m value next, act.run m = (.ok value, next) → Q value next
  failed : ∀ m fault next, act.run m = (.error fault, next) → F fault

/-- Only the failures of the computation are restricted. -/
abbrev Attempt.Raises (F : ε → Prop) (act : ExceptT ε (Action World) α) : Prop :=
  Attempt.Ends (fun _ _ => True) F act

namespace Attempt

variable {Q : α → Machine World → Prop} {F : ε → Prop}

namespace Ends

theorem pure {value : α} (holds : ∀ m, Q value m) :
    Ends Q F (pure value : ExceptT ε (Action World) α) where
  completed m _ _ ran := by
    cases ran
    exact holds m
  failed m _ _ ran := by cases ran

theorem throw {fault : ε} (raised : F fault) :
    Ends Q F (throw fault : ExceptT ε (Action World) α) where
  completed m _ _ ran := by cases ran
  failed m _ _ ran := by
    cases ran
    exact raised

theorem lift {act : Action World α} (holds : ∀ m, Q (act m).1 (act m).2) :
    Ends Q F (liftM act : ExceptT ε (Action World) α) where
  completed m _ _ ran := by
    rw [run_lift] at ran
    cases ran
    exact holds m
  failed m _ _ ran := by
    rw [run_lift] at ran
    cases ran

/-- What a computation results in is up to its last part. -/
theorem bind {act : ExceptT ε (Action World) β} {next : β → ExceptT ε (Action World) α}
    (first : Raises F act) (rest : ∀ value, Ends Q F (next value)) :
    Ends Q F (act >>= next) where
  completed m result last ran := by
    obtain ⟨value, middle, _, ran⟩ := run_bind_eq_ok ran
    exact (rest value).completed middle result last ran
  failed m fault last ran := by
    rw [run_bind] at ran
    rcases begun : act.run m with ⟨early | value, middle⟩ <;> rw [begun] at ran
    · cases ran
      exact first.failed m fault last begun
    · exact (rest value).failed middle fault last ran

theorem getting {next : Machine World → ExceptT ε (Action World) α}
    (rest : ∀ m, Ends Q F (next m)) : Ends Q F (get >>= next) where
  completed m := (rest m).completed m
  failed m := (rest m).failed m

/-- The result is read off the machine that is left. -/
theorem reading {value : Machine World → α} (holds : ∀ m, Q (value m) m) :
    Ends Q F (do return value (← get) : ExceptT ε (Action World) α) where
  completed m _ _ ran := by
    cases ran
    exact holds m
  failed m _ _ ran := by cases ran

theorem of_action (act : Action World α) :
    Raises F (liftM act : ExceptT ε (Action World) α) :=
  .lift fun _ => trivial

theorem done (value : α) : Raises F (Pure.pure value : ExceptT ε (Action World) α) :=
  .pure fun _ => trivial

theorem modify (change : Machine World → Machine World) :
    Raises F (modify change : ExceptT ε (Action World) Unit) :=
  .of_action (modifyGet fun m => ((), change m))

theorem attempt {change : Machine World → Except Fault (Machine World)} {F : Fault → Prop}
    (refused : ∀ m fault, change m = .error fault → F fault) :
    Raises F (Machine.attempt change) where
  completed _ _ _ _ := trivial
  failed m fault _ ran := by
    rw [run_attempt] at ran
    rcases changed : change m with early | next <;> rw [changed] at ran
    · cases ran
      exact refused m fault changed
    · cases ran

theorem forM {act : β → ExceptT ε (Action World) PUnit} (each : ∀ value, Raises F (act value))
    (values : List β) : Raises F (values.forM act) := by
  induction values with
  | nil => exact .done _
  | cons value rest inductionHypothesis => exact .bind (each value) fun _ => inductionHypothesis

end Ends

end Attempt

/-! ### Faults of a running program -/

/-- A device of the outside fails of its own accord. -/
def Environment.Raises (env : Environment World) (fault : Fault) : Prop :=
  ∃ handle m,
    (∃ value, ((env.writeDevice handle value).run m).1 = .error fault) ∨
      ∃ bit value, ((env.writeDeviceBit handle bit value).run m).1 = .error fault

namespace Machine

open Avr.Interrupt Avr.Io Avr.Isa

/-- The faults of a running program while its program counter is aligned. -/
inductive Raised (env : Environment World) : Fault → Prop where
  | unimplemented (pc : Nat) (opcode : UInt16) (mnemonic : String) :
      Raised env (.unimplemented pc opcode mnemonic)
  | outside (segment : String) (address : Nat) : Raised env (.outOfBounds segment address)
  | reserved (register : Nat) (value : UInt8) : Raised env (.reservedWrite register value)
  | vector (vector count : Nat) : Raised env (.invalidInterrupt vector count)
  | device {fault : Fault} (raises : env.Raises fault) : Raised env fault

variable {env : Environment World}

theorem raises_changeVector {change : Table → Nat → Except Fault Table}
    (operation : VectorChange change) (hook : Nat → Hook) (vector : Nat) :
    Attempt.Raises (Raised env) (changeVector env change hook vector) := by
  refine .bind (.attempt fun m fault refused => ?_) fun _ => .of_action _
  have checked : m.interrupts.table.check vector = .error fault := by
    cases operation <;>
      simp only [Table.post, Table.unpost, Table.enable, Table.disable] at refused <;>
      rcases check : m.interrupts.table.check vector with early | passed <;>
      rw [check] at refused <;> cases refused <;> rfl
  rw [Table.check] at checked
  split at checked
  · cases checked
  · cases checked
    exact .vector _ _

theorem raises_setPosted (vector : Nat) (posted : Bool) :
    Attempt.Raises (Raised env) (setPosted env vector posted) := by
  cases posted with
  | true => exact raises_changeVector .post _ _
  | false => exact raises_changeVector .unpost _ _

theorem raises_setEnabled (vector : Nat) (enabled : Bool) :
    Attempt.Raises (Raised env) (setEnabled env vector enabled) := by
  cases enabled with
  | true => exact raises_changeVector .enable _ _
  | false => exact raises_changeVector .disable _ _

/-! ### The self-programming unit -/

theorem raises_writeSpmControl (value : UInt8) :
    Attempt.Raises (Raised env) (writeSpmControl env value) := by
  have rest : Attempt.Raises (Raised env)
      (do
        modify fun m => m.modifySpm fun unit => { unit with control := armedValue value }
        setPosted env (← get).part.spmReady (reportsReady (armedValue value)) :
          Attempt World Unit) :=
    .bind (.modify _) fun _ => .getting fun _ => raises_setPosted _ _
  unfold writeSpmControl
  split
  · exact .bind (.of_action _) fun _ => .bind (.of_action _) fun _ => rest
  · exact rest

theorem raises_performStore (spmUnit : SelfProgramming) :
    Attempt.Raises (Raised env) (performStore env spmUnit) := by
  refine .getting fun m => ?_
  dsimp only
  split
  · exact .bind (.getting fun _ => raises_writeSpmControl _) fun _ =>
      .bind (.modify _) fun _ => .of_action _
  · exact .bind (.of_action _) fun _ => .of_action _
  · exact .bind (.of_action _) fun _ => .getting fun _ => .bind (.modify _) fun _ => .of_action _
  · exact .of_action _
  · exact .of_action _
  · exact .done _

theorem raises_storeProgram : Attempt.Raises (Raised env) (storeProgram env) := by
  refine .getting fun m => ?_
  split
  · exact .done _
  · exact raises_performStore _

/-! ### IO registers -/

theorem raises_writeDevice (value : UInt8) (device : Device) :
    Attempt.Raises (Raised env) (writeDevice env value device) := by
  cases device with
  | selfProgramming => exact raises_writeSpmControl value
  | outside handle =>
      refine ⟨fun _ _ _ _ => trivial, fun m fault next ran => .device ⟨handle, m, .inl ⟨value, ?_⟩⟩⟩
      exact congrArg Prod.fst ran

theorem raises_writeDeviceBit (bit : Nat) (value : Bool) (device : Device) :
    Attempt.Raises (Raised env) (writeDeviceBit env bit value device) := by
  cases device with
  | selfProgramming => exact .getting fun _ => raises_writeSpmControl _
  | outside handle =>
      refine ⟨fun _ _ _ _ => trivial,
        fun m fault next ran => .device ⟨handle, m, .inr ⟨bit, value, ?_⟩⟩⟩
      exact congrArg Prod.fst ran

theorem raises_writeReserved (register : Nat) (value : UInt8) :
    Attempt.Raises (Raised env) (writeReserved env register value) := by
  refine .getting fun m => ?_
  split
  · exact .throw (.reserved _ _)
  · exact .of_action _

theorem raises_writeUnwatched (register : Nat) (value : UInt8) :
    Attempt.Raises (Raised env) (writeUnwatched env register value) := by
  refine .getting fun m => ?_
  split
  · exact .throw (.outside _ _)
  · exact .modify _
  · exact .modify _
  · exact .modify _
  · exact .of_action _
  · exact .bind (.modify _) fun _ => .forM (fun _ => raises_setPosted _ _) _
  · exact .bind (.modify _) fun _ => .forM (fun _ => raises_setEnabled _ _) _
  · exact raises_writeReserved _ _
  · exact raises_writeDevice _ _

theorem raises_writeBitUnwatched (register bit : Nat) (value : Bool) :
    Attempt.Raises (Raised env) (writeBitUnwatched env register bit value) := by
  refine .getting fun m => ?_
  split
  · exact .throw (.outside _ _)
  · split
    · exact raises_writeUnwatched _ _
    · exact .done _
  · exact raises_writeDeviceBit _ _ _
  · exact .bind (.of_action _) fun _ => raises_writeUnwatched _ _

theorem raises_aroundAttempt {before after : Hook} {watches : HandleList}
    {act : Attempt World Unit} (raises : Attempt.Raises (Raised env) act) :
    Attempt.Raises (Raised env) (aroundAttempt env before watches after act) :=
  .bind (.of_action _) fun _ => .bind raises fun _ => .of_action _

theorem raises_writeIo (register : Nat) (value : UInt8) :
    Attempt.Raises (Raised env) (writeIo env register value) := by
  rw [writeIo_eq]
  exact .getting fun _ => raises_aroundAttempt (raises_writeUnwatched _ _)

theorem raises_writeIoBit (register bit : Nat) (value : Bool) :
    Attempt.Raises (Raised env) (writeIoBit env register bit value) := by
  rw [writeIoBit_eq]
  exact .getting fun _ => raises_aroundAttempt (raises_writeBitUnwatched _ _ _)

/-! ### The data space and the stack -/

theorem raises_writeData (address : UInt16) (value : UInt8) :
    Attempt.Raises (Raised env) (writeData env address value) := by
  refine .getting fun m => .bind (.of_action _) fun _ => .getting fun m => ?_
  split
  · exact .bind (raises_writeIo _ _) fun _ => .of_action _
  · exact .bind (.of_action _) fun _ => .of_action _

theorem raises_push (value : UInt8) : Attempt.Raises (Raised env) (push env value) :=
  .getting fun _ => .bind (raises_writeData _ _) fun _ => .modify _

theorem raises_pushReturn (word : Nat) : Attempt.Raises (Raised env) (pushReturn env word) :=
  .bind (raises_push _) fun _ => raises_push _

/-! ### Instructions -/

theorem run_execute_of_performed {m next : Machine World} {i : Instr} {outcome : Outcome}
    (performed : (perform env i (following m.pc i)).run m = (.ok outcome, next)) :
    (execute env i).run m = (.ok outcome.cycles, { next with pc := outcome.pc }) := by
  rw [execute, Attempt.run_bind, Attempt.run_get]
  dsimp only
  rw [Attempt.run_bind, performed]
  rfl

theorem following_even {pc : Nat} (even : pc % 2 = 0) (i : Instr) : following pc i % 2 = 0 := by
  rw [following, Instr.size]
  split <;> omega

/-- Where execution can go on after an instruction with its successor in memory at `next`: there, or
behind what is skipped, or at a target in words. -/
inductive Successor (m : Machine World) (next : Nat) : Nat → Prop where
  | ahead (words : Nat) : Successor m next (next + 2 * words)
  | relative (k : Int) : Successor m next (m.relativeTarget next k)
  | absolute (word : Nat) : Successor m next (word * 2)

/-- The outcome of an instruction leads to one of its successors. -/
abbrev Leads (next : Nat) (outcome : Outcome) (m : Machine World) : Prop :=
  Successor m next outcome.pc

theorem leads_skipIf (next : Nat) (condition : Bool) (m : Machine World) :
    Leads next (skipIf env next condition m).1 (skipIf env next condition m).2 := by
  cases condition with
  | false => exact .ahead 0
  | true =>
      rw [skipIf, if_pos rfl, skip, Action.apply_bind, Action.apply_bind]
      change Successor _ next (if _ then (⟨next + 4, 3⟩ : Outcome) else ⟨next + 2, 2⟩).pc
      split
      · exact .ahead 2
      · exact .ahead 1

theorem leads_executeRegisterBit (op : RegisterBitOp) (r : Reg) (b : UInt8) (next : Nat)
    (m : Machine World) :
    Leads next (executeRegisterBit env op r b next m).1
      (executeRegisterBit env op r b next m).2 := by
  cases op with
  | bst | bld => exact .ahead 0
  | sbrc | sbrs => exact leads_skipIf next _ m

/-- The computation goes on behind an instruction, or fails as a running program does. -/
abbrev LeadsOn (env : Environment World) (next : Nat) (act : Attempt World Outcome) : Prop :=
  Attempt.Ends (Leads next) (Raised env) act

theorem leadsOn_here (next cycles : Nat) :
    LeadsOn env next (pure ⟨next, cycles⟩ : Attempt World Outcome) :=
  .pure fun _ => .ahead 0

theorem leadsOn_target (next cycles : Nat) :
    LeadsOn env next (do return ⟨((← get).pointer .z).toNat * 2, cycles⟩) :=
  .reading fun _ => .absolute _

theorem leadsOn_executeUnary (op : UnaryOp) (r : Reg) (next : Nat) :
    LeadsOn env next (executeUnary env op r next) := by
  unfold executeUnary
  split
  · exact .getting fun _ => .bind (raises_push _) fun _ => leadsOn_here _ _
  · exact .bind (.of_action _) fun _ => .bind (.modify _) fun _ => leadsOn_here _ _
  · exact .bind (.modify _) fun _ => leadsOn_here _ _

theorem leadsOn_executeIoBit (op : IoBitOp) (a b : UInt8) (next : Nat) :
    LeadsOn env next (executeIoBit env op a b next) := by
  cases op with
  | cbi | sbi => exact .bind (raises_writeIoBit _ _ _) fun _ => leadsOn_here _ _
  | sbic | sbis => exact .bind (.of_action _) fun _ => .lift (leads_skipIf next _)

theorem leadsOn_executeControl (op : ControlOp) (next : Nat) :
    LeadsOn env next (executeControl env op next) := by
  cases op with
  | ijmp => exact leadsOn_target _ _
  | icall => exact .bind (raises_pushReturn _) fun _ => leadsOn_target _ _
  | eijmp | eicall => exact .getting fun _ => .throw (.unimplemented _ _ _)
  | ret => exact .bind (.of_action _) fun _ => .pure fun _ => .absolute _
  | reti =>
      exact .bind (.of_action _) fun _ => .bind (.of_action _) fun _ =>
        .bind (.modify _) fun _ => .pure fun _ => .absolute _
  | spm => exact .bind raises_storeProgram fun _ => leadsOn_here _ _
  | nop | wdr => exact leadsOn_here _ _
  | sleep | «break» =>
      exact .getting fun _ => .bind (.of_action _) fun _ => .bind (.modify _) fun _ =>
        leadsOn_here _ _

/-- Every instruction leads to one of its successors, or fails as a running program does. -/
theorem leadsOn_perform (i : Instr) (next : Nat) : LeadsOn env next (perform env i next) := by
  cases i with
  | binary op rd rr =>
      cases op with
      | cpse => exact .getting fun _ => .getting fun _ => .lift (leads_skipIf next _)
      | _ => exact .bind (.modify _) fun _ => leadsOn_here _ _
  | immediate op rd k => exact .bind (.modify _) fun _ => leadsOn_here _ _
  | unary op r => exact leadsOn_executeUnary op r next
  | flag set s => exact .bind (.of_action _) fun _ => leadsOn_here _ _
  | registerBit op r b => exact .lift (leads_executeRegisterBit op r b next)
  | branch onSet s k =>
      let outcome (m : Machine World) : Outcome :=
        if m.status.bit s.toNat = onSet then ⟨m.relativeTarget next k, 2⟩ else ⟨next, 1⟩
      have leads (m : Machine World) : Leads next (outcome m) m := by
        dsimp only [Leads, outcome]
        split
        · exact .relative k
        · exact .ahead 0
      exact Attempt.Ends.reading leads
  | relative isCall k =>
      cases isCall with
      | true => exact .bind (raises_pushReturn _) fun _ => .reading fun _ => .relative k
      | false => exact .reading fun _ => .relative k
  | absolute isCall k =>
      cases isCall with
      | true => exact .bind (raises_pushReturn _) fun _ => .pure fun _ => .absolute _
      | false => exact .pure fun _ => .absolute _
  | input rd a => exact .bind (.of_action _) fun _ => .bind (.modify _) fun _ => leadsOn_here _ _
  | output a rr => exact .getting fun _ => .bind (raises_writeIo _ _) fun _ => leadsOn_here _ _
  | ioBit op a b => exact leadsOn_executeIoBit op a b next
  | load rd p mode =>
      exact .bind (.of_action (answer _)) fun _ => .bind (.of_action _) fun _ =>
        .bind (.modify _) fun _ => leadsOn_here _ _
  | store p mode rr =>
      exact .getting fun _ => .bind (.of_action (answer _)) fun _ =>
        .bind (raises_writeData _ _) fun _ => leadsOn_here _ _
  | loadDirect rd k =>
      exact .bind (.of_action _) fun _ => .bind (.modify _) fun _ => leadsOn_here _ _
  | storeDirect k rr =>
      exact .getting fun _ => .bind (raises_writeData _ _) fun _ => leadsOn_here _ _
  | loadProgram extended rd increment => exact .bind (.of_action _) fun _ => leadsOn_here _ _
  | control op => exact leadsOn_executeControl op next
  | undefined word => exact .getting fun _ => .throw (.unimplemented _ _ _)

end Machine

end Avr

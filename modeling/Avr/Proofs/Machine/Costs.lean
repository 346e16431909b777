import Avr.Machine.Execute
import Avr.Proofs.Isa.Codec
import Avr.Proofs.Machine.Respect

/-!
Contract: what an instruction costs.

Owns:
- the cycles that are listed for each instruction, and those that a taken branch or a skip adds;
- the cost of an instruction that completes, as the sum of the two;
- what a skip adds, as the words of the instruction that flash holds there.

Whether a bit of an IO register skips is known only once it has been read, and the read may change
the machine. So what is skipped is looked up on the machine that the read leaves.
-/

namespace Avr

open Isa

/-- Cycles that are listed for an instruction, without a branch that is taken and without a skip. -/
def Isa.Instr.listedCycles : Instr → Nat
  | .binary .mul .. | .binary .muls .. | .binary .mulsu .. => 2
  | .binary .fmul .. | .binary .fmuls .. | .binary .fmulsu .. => 2
  | .immediate .adiw .. | .immediate .sbiw .. => 2
  | .unary .push _ | .unary .pop _ => 2
  | .ioBit .cbi .. | .ioBit .sbi .. => 2
  | .load .. | .store .. | .loadDirect .. | .storeDirect .. => 2
  | .relative false _ | .control .ijmp => 2
  | .relative true _ | .control .icall => 3
  | .absolute false _ | .loadProgram .. => 3
  | .absolute true _ | .control .ret | .control .reti => 4
  | _ => 1

theorem Isa.Instr.one_le_listedCycles (i : Instr) : 1 ≤ i.listedCycles := by
  cases i with
  | binary op rd rr => cases op <;> exact Nat.succ_pos _
  | immediate op rd k => cases op <;> exact Nat.succ_pos _
  | unary op r => cases op <;> exact Nat.succ_pos _
  | ioBit op a b => cases op <;> exact Nat.succ_pos _
  | relative isCall k => cases isCall <;> exact Nat.succ_pos _
  | absolute isCall k => cases isCall <;> exact Nat.succ_pos _
  | control op => cases op <;> exact Nat.succ_pos _
  | _ => exact Nat.succ_pos _

namespace Attempt

open Machine (Outcome)

variable {World α : Type} {cost : Nat}

/-- Whatever machine it leaves, a computation that completes costs this. -/
structure Costs (cost : Nat) (act : Attempt World Outcome) : Prop where
  cycles : ∀ {m outcome next}, act.run m = (.ok outcome, next) → outcome.cycles = cost

theorem Costs.pure (pc : Nat) : Costs cost (pure ⟨pc, cost⟩ : Attempt World Outcome) where
  cycles ran := by
    cases ran
    rfl

theorem Costs.throw (fault : Fault) : Costs cost (throw fault : Attempt World Outcome) where
  cycles ran := by cases ran

theorem Costs.bind (act : Attempt World α) {rest : α → Attempt World Outcome}
    (each : ∀ value, Costs cost (rest value)) : Costs cost (act >>= rest) where
  cycles ran := by
    obtain ⟨value, middle, -, ran⟩ := run_bind_eq_ok ran
    exact (each value).cycles ran

end Attempt

namespace Machine

variable {World : Type} (env : Environment World)

/-- Words of the instruction at a byte address, by its first word. -/
def wordsAt (address : Nat) (m : Machine World) : Nat :=
  let (low, read) := readFlash env address m
  let (high, _) := readFlash env (address + 1) read
  if startsTwoWord (wordOfBytes low high) then 2 else 1

/-- Whether an instruction skips the one that follows it, and the machine once this is known. -/
def skips (i : Instr) (m : Machine World) : Bool × Machine World :=
  match i with
  | .binary .cpse rd rr => (m.reg rd = m.reg rr, m)
  | .registerBit .sbrc r b => (!byteBit (m.reg r) b.toNat, m)
  | .registerBit .sbrs r b => (byteBit (m.reg r) b.toNat, m)
  | .ioBit .sbic a b =>
    let (set, asked) := readIoBit env a.toNat b.toNat m
    (!set, asked)
  | .ioBit .sbis a b => readIoBit env a.toNat b.toNat m
  | _ => (false, m)

/-- Cycles that a taken branch or a skip over the instruction at `next` adds. -/
def addedCycles (i : Instr) (next : Nat) (m : Machine World) : Nat :=
  match i with
  | .branch onSet s _ => if m.status.bit s.toNat = onSet then 1 else 0
  | _ => if (skips env i m).1 then wordsAt env next (skips env i m).2 else 0

/-- What an instruction costs that is executed now. -/
def instructionCycles (i : Instr) (m : Machine World) : Nat :=
  i.listedCycles + addedCycles env i (following m.pc i) m

variable {env}

theorem one_le_instructionCycles (i : Instr) (m : Machine World) :
    1 ≤ instructionCycles env i m :=
  Nat.le_add_right_of_le i.one_le_listedCycles

/-! ### Skips -/

theorem readFlash_of_lt {m : Machine World} {address : Nat}
    (inside : address < m.flash.segment.bytes.size) :
    readFlash env address m = (m.flash.segment.bytes[address], m) := by
  have found : m.flash.segment.bytes[address]? = some m.flash.segment.bytes[address] :=
    Array.getElem?_eq_getElem inside
  change ((m.flash.segment.read env.toReporting address m.world).1,
    { m with world := (m.flash.segment.read env.toReporting address m.world).2 }) = _
  rw [Memory.Segment.read, found]

variable (env) in
/-- The first word of an instruction in flash, byte after byte as a skip reads it. -/
theorem word_of_readFlash {m : Machine World} {index : Nat}
    (inside : 2 * index + 1 < m.flash.segment.bytes.size) :
    ∃ low high, readFlash env (2 * index) m = (low, m) ∧
      readFlash env (2 * index + 1) m = (high, m) ∧ m.flash.word index = wordOfBytes low high := by
  have first : 2 * index < m.flash.segment.bytes.size := Nat.lt_of_succ_lt inside
  refine ⟨_, _, readFlash_of_lt first, readFlash_of_lt inside, ?_⟩
  rw [Flash.word, Array.getElem?_eq_getElem first, Array.getElem?_eq_getElem inside]

/-- Within flash a skip ends behind the instruction that the bytes hold. -/
theorem skipIf_of_lt {m : Machine World} {index : Nat}
    (inside : 2 * index + 1 < m.flash.segment.bytes.size) :
    skipIf env (2 * index) true m =
      (⟨2 * index + (m.flash.decodeAt index).size, 1 + (m.flash.decodeAt index).size / 2⟩, m) := by
  obtain ⟨low, high, first, second, word⟩ := word_of_readFlash env inside
  have skips : skipIf env (2 * index) true m =
      (if startsTwoWord (m.flash.word index) then ⟨2 * index + 4, 3⟩ else ⟨2 * index + 2, 2⟩,
        m) := by
    rw [word, skipIf, if_pos rfl, skip, Action.apply_bind, first, Action.apply_bind, second]
    rfl
  rw [skips, Instr.size, Flash.decodeAt, isTwoWord_decode]
  cases startsTwoWord (m.flash.word index) <;> rfl

theorem cycles_skipIf (next : Nat) (condition : Bool) (m : Machine World) :
    (skipIf env next condition m).1.cycles =
      1 + if condition then wordsAt env next m else 0 := by
  cases condition with
  | false => rfl
  | true =>
      change (if startsTwoWord _ then (⟨next + 4, 3⟩ : Outcome) else ⟨next + 2, 2⟩).cycles =
        1 + if startsTwoWord _ then 2 else 1
      split <;> rfl

/-! ### Costs -/

theorem cycles_perform {i : Instr} {next : Nat} {m after : Machine World} {outcome : Outcome}
    (ran : (perform env i next).run m = (.ok outcome, after)) :
    outcome.cycles = i.listedCycles + addedCycles env i next m := by
  have fixed (costs : (perform env i next).Costs i.listedCycles)
      (nothing : addedCycles env i next m = 0) :
      outcome.cycles = i.listedCycles + addedCycles env i next m := by
    rw [nothing]
    exact costs.cycles ran
  have skipped {condition : Bool} {asked : Machine World}
      (skips : (perform env i next).run m = (liftM (skipIf env next condition) :
        Attempt World Outcome).run asked) :
      outcome.cycles = 1 + if condition then wordsAt env next asked else 0 := by
    rw [ran, Attempt.run_lift] at skips
    cases skips
    exact cycles_skipIf next condition asked
  cases i with
  | binary op rd rr =>
      cases op with
      | cpse => exact skipped rfl
      | _ => exact fixed (.bind _ fun _ => .pure _) rfl
  | immediate op rd k =>
      cases op with
      | _ => exact fixed (.bind _ fun _ => .pure _) rfl
  | unary op r =>
      cases op with
      | push => exact fixed (.bind _ fun _ => .bind _ fun _ => .pure _) rfl
      | pop => exact fixed (.bind _ fun _ => .bind _ fun _ => .pure _) rfl
      | _ => exact fixed (.bind _ fun _ => .pure _) rfl
  | flag set s => exact fixed (.bind _ fun _ => .pure _) rfl
  | registerBit op r b =>
      cases op with
      | bst | bld =>
          cases ran
          rfl
      | sbrc | sbrs => exact skipped rfl
  | branch onSet s k =>
      cases ran
      change (if _ = onSet then (⟨m.relativeTarget next k, 2⟩ : Outcome) else ⟨next, 1⟩).cycles =
        1 + if _ = onSet then 1 else 0
      split <;> rfl
  | relative isCall k =>
      cases isCall with
      | true => exact fixed (.bind _ fun _ => .bind _ fun _ => .pure _) rfl
      | false => exact fixed (.bind _ fun _ => .pure _) rfl
  | absolute isCall k =>
      cases isCall with
      | true => exact fixed (.bind _ fun _ => .pure _) rfl
      | false => exact fixed (.pure _) rfl
  | input rd a => exact fixed (.bind _ fun _ => .bind _ fun _ => .pure _) rfl
  | output a rr => exact fixed (.bind _ fun _ => .bind _ fun _ => .pure _) rfl
  | ioBit op a b =>
      cases op with
      | cbi | sbi => exact fixed (.bind _ fun _ => .pure _) rfl
      | sbic | sbis => exact skipped rfl
  | load rd p mode =>
      exact fixed (.bind _ fun _ => .bind _ fun _ => .bind _ fun _ => .pure _) rfl
  | store p mode rr =>
      exact fixed (.bind _ fun _ => .bind _ fun _ => .bind _ fun _ => .pure _) rfl
  | loadDirect rd k => exact fixed (.bind _ fun _ => .bind _ fun _ => .pure _) rfl
  | storeDirect k rr => exact fixed (.bind _ fun _ => .bind _ fun _ => .pure _) rfl
  | loadProgram extended rd increment => exact fixed (.bind _ fun _ => .pure _) rfl
  | control op =>
      cases op with
      | ijmp | ret | spm => exact fixed (.bind _ fun _ => .pure _) rfl
      | icall => exact fixed (.bind _ fun _ => .bind _ fun _ => .pure _) rfl
      | eijmp | eicall => exact fixed (.bind _ fun _ => .throw _) rfl
      | reti => exact fixed (.bind _ fun _ => .bind _ fun _ => .bind _ fun _ => .pure _) rfl
      | nop | wdr => exact fixed (.pure _) rfl
      | sleep | «break» =>
          exact fixed (.bind _ fun _ => .bind _ fun _ => .bind _ fun _ => .pure _) rfl
  | undefined word => exact fixed (.bind _ fun _ => .throw _) rfl

/-- An instruction that completes costs what is listed for it, and what a taken branch or a skip
adds. -/
theorem cycles_execute {i : Instr} {m after : Machine World} {cycles : Nat}
    (ran : (execute env i).run m = (.ok cycles, after)) :
    cycles = instructionCycles env i m := by
  rw [execute, Attempt.run_bind, Attempt.run_get] at ran
  obtain ⟨outcome, middle, performs, moves⟩ := Attempt.run_bind_eq_ok ran
  cases moves
  exact cycles_perform performs

end Machine

end Avr

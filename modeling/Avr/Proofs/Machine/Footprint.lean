import Avr.Proofs.Alu.Flags
import Avr.Proofs.Machine.Costs
import Avr.Proofs.Machine.FastPath
import Avr.Proofs.Machine.Faults
import Avr.Proofs.Machine.Instructions

/-!
Contract: instructions that only process data touch nothing but their footprint.

Owns:
- the footprint of an instruction: the registers that it stores to and the flags that it alters;
- changes of a machine within a footprint;
- execution of the instructions on two registers, on a register and a constant, on one register,
  and on `T`.

The footprint is read off the instruction alone, so operands may coincide or overlap in any way.
A comparing skip has none; what it skips is read from flash, which the world hears of if the
address lies outside.
-/

namespace Avr.Machine

open Avr.Isa

variable {World : Type}

/-! ### Footprints -/

/-- What an instruction may change besides the program counter. -/
structure Footprint where
  registers : List Reg
  flags : List Flag
deriving DecidableEq, Repr

def binaryFootprint (op : BinaryOp) (rd : Reg) : Footprint :=
  match op with
  | .add | .adc | .sub | .sbc => ⟨[rd], Flag.arithmetic⟩
  | .and | .or | .eor => ⟨[rd], Flag.logical⟩
  | .cp | .cpc => ⟨[], Flag.arithmetic⟩
  | .cpse => ⟨[], []⟩
  | .mov => ⟨[rd], []⟩
  | .movw => ⟨[rd, pairHigh rd], []⟩
  | .mul | .muls | .mulsu | .fmul | .fmuls | .fmulsu => ⟨[0, 1], Flag.multiplying⟩

def immediateFootprint (op : ImmediateOp) (rd : Reg) : Footprint :=
  match op with
  | .subi | .sbci => ⟨[rd], Flag.arithmetic⟩
  | .andi | .ori => ⟨[rd], Flag.logical⟩
  | .cpi => ⟨[], Flag.arithmetic⟩
  | .ldi => ⟨[rd], []⟩
  | .adiw | .sbiw => ⟨[rd, pairHigh rd], Flag.shifting⟩

/-- Pushes and pops work on memory, so they have no footprint. -/
def unaryFootprint? (op : UnaryOp) (r : Reg) : Option Footprint :=
  match op with
  | .com | .lsr | .ror | .asr => some ⟨[r], Flag.shifting⟩
  | .neg => some ⟨[r], Flag.arithmetic⟩
  | .inc | .dec => some ⟨[r], Flag.logical⟩
  | .swap => some ⟨[r], []⟩
  | .push | .pop => none

/-- The footprint of an instruction that only processes data. -/
def footprint? : Instr → Option Footprint
  | .binary op rd _ => some (binaryFootprint op rd)
  | .immediate op rd _ => some (immediateFootprint op rd)
  | .unary op r => unaryFootprint? op r
  | .registerBit .bst _ _ => some ⟨[], [.t]⟩
  | .registerBit .bld r _ => some ⟨[r], []⟩
  | _ => none

/-- Nothing outside of the footprint differs, apart from the program counter and the world. -/
structure Touches (footprint : Footprint) (before after : Machine World) : Prop where
  rest : after = { before with
    pc := after.pc
    status := after.status
    data := { before.data with bytes := after.data.bytes }
    world := after.world }
  size : after.data.bytes.size = before.data.bytes.size
  bytes : ∀ address, (∀ r ∈ footprint.registers, r.val ≠ address) →
    after.data.bytes[address]? = before.data.bytes[address]?
  flags : before.status.Alters footprint.flags after.status

namespace Touches

variable {registers : List Reg} {flags : List Flag} {m n : Machine World}

theorem none (m : Machine World) : Touches ⟨[], []⟩ m m where
  rest := rfl
  size := rfl
  bytes _ _ := rfl
  flags := .none _

theorem setReg (m : Machine World) (r : Reg) (value : UInt8) :
    Touches ⟨[r], []⟩ m (m.setReg r value) where
  rest := rfl
  size := Array.size_setIfInBounds
  bytes _ apart := Array.getElem?_setIfInBounds_ne (apart r (List.mem_singleton_self r))
  flags := .none _

theorem setPair (m : Machine World) (low : Reg) (value : UInt16) :
    Touches ⟨[low, pairHigh low], []⟩ m (m.setPair low value) where
  rest := rfl
  size := Array.size_setIfInBounds.trans Array.size_setIfInBounds
  bytes _ apart :=
    (Array.getElem?_setIfInBounds_ne (apart (pairHigh low) (by simp))).trans
      (Array.getElem?_setIfInBounds_ne (apart low (by simp)))
  flags := .none _

theorem alter (touches : Touches ⟨registers, []⟩ m n) {status : Status}
    (alters : m.status.Alters flags status) :
    Touches ⟨registers, flags⟩ m { n with status } where
  rest := congrArg (fun next => ({ next with status } : Machine World)) touches.rest
  size := touches.size
  bytes := touches.bytes
  flags := alters

theorem withResult (rd : Reg) {result : UInt8 × Status}
    (alters : m.status.Alters flags result.2) :
    Touches ⟨[rd], flags⟩ m (m.withResult rd result) :=
  (setReg m rd result.1).alter alters

theorem withFlags {result : UInt8 × Status} (alters : m.status.Alters flags result.2) :
    Touches ⟨[], flags⟩ m (m.withFlags result) :=
  (none m).alter alters

theorem withWord (low : Reg) {result : UInt16 × Status}
    (alters : m.status.Alters flags result.2) :
    Touches ⟨[low, pairHigh low], flags⟩ m (m.withWord low result) :=
  (setPair m low result.1).alter alters

theorem moveOn {footprint : Footprint} (touches : Touches footprint m n) (pc : Nat) :
    Touches footprint m { n with pc } where
  rest := congrArg (fun next => ({ next with pc } : Machine World)) touches.rest
  size := touches.size
  bytes := touches.bytes
  flags := touches.flags

end Touches

/-! ### The operations -/

theorem touches_binary (op : BinaryOp) (rd rr : Reg) (m : Machine World) :
    Touches (binaryFootprint op rd) m (m.binary op rd rr) := by
  cases op with
  | add | adc => exact .withResult rd (Alu.alters_add _ _ _ _)
  | sub | sbc => exact .withResult rd (Alu.alters_subtract _ _ _ _)
  | and | or | eor => exact .withResult rd (Alu.alters_resultFlags _ _ _)
  | cp | cpc => exact .withFlags (Alu.alters_subtract _ _ _ _)
  | cpse => exact .none m
  | mov => exact .setReg m rd _
  | movw => exact .setPair m rd _
  | mul | muls | mulsu | fmul | fmuls | fmulsu =>
    exact .withWord 0 (Alu.alters_multiply _ _ _ _)

theorem touches_immediate (op : ImmediateOp) (rd : Reg) (k : UInt8) (m : Machine World) :
    Touches (immediateFootprint op rd) m (m.immediate op rd k) := by
  cases op with
  | subi | sbci => exact .withResult rd (Alu.alters_subtract _ _ _ _)
  | andi | ori => exact .withResult rd (Alu.alters_resultFlags _ _ _)
  | cpi => exact .withFlags (Alu.alters_subtract _ _ _ _)
  | ldi => exact .setReg m rd k
  | adiw => exact .withWord rd (Alu.alters_addWord _ _ _)
  | sbiw => exact .withWord rd (Alu.alters_subtractWord _ _ _)

theorem touches_unary {op : UnaryOp} {r : Reg} {footprint : Footprint}
    (processes : unaryFootprint? op r = some footprint) (m : Machine World) :
    Touches footprint m (m.unary op r) := by
  cases op with
  | push | pop => cases processes
  | com =>
    cases processes
    exact .withResult r (Alu.alters_complement _ _)
  | neg =>
    cases processes
    exact .withResult r (Alu.alters_subtract _ _ _ _)
  | inc | dec =>
    cases processes
    exact .withResult r (Alu.alters_resultFlags _ _ _)
  | lsr | ror | asr =>
    cases processes
    exact .withResult r (Alu.alters_shiftRight _ _ _)
  | swap =>
    cases processes
    exact .setReg m r _

theorem touches_storeBit (r : Reg) (b : UInt8) (m : Machine World) :
    Touches ⟨[], [.t]⟩ m (m.storeBit r b) :=
  (Touches.none m).alter (m.status.alters_t _)

theorem Computes.world {change : Machine World → Machine World} (computes : Computes change)
    (m : Machine World) : (change m).world = m.world := by
  rw [computes.shape m]
  rfl

/-! ### Execution -/

variable (env : Environment World)

/-- A skip reads flash and nothing else; the world hears of addresses outside. -/
theorem run_skipIf (next : Nat) (condition : Bool) (m : Machine World) :
    ∃ outcome world, skipIf env next condition m = (outcome, { m with world }) ∧
      (world = m.world ∨ m.flash.segment.bytes.size ≤ next + 1) := by
  cases condition with
  | false => exact ⟨⟨next, 1⟩, m.world, rfl, .inl rfl⟩
  | true =>
    rcases Nat.lt_or_ge (next + 1) m.flash.segment.bytes.size with inside | outside
    · rw [skipIf, if_pos rfl, skip, Action.apply_bind, Action.apply_bind,
        readFlash_of_lt (Nat.lt_of_succ_lt inside), readFlash_of_lt inside]
      exact ⟨_, m.world, rfl, .inl rfl⟩
    · exact ⟨_, _, rfl, .inr outside⟩

theorem run_execute_binary {op : BinaryOp} (processes : op ≠ .cpse) (rd rr : Reg)
    (m : Machine World) :
    (execute env (.binary op rd rr)).run m =
      (.ok (binaryCycles op),
        { m.binary op rd rr with pc := following m.pc (.binary op rd rr) }) := by
  cases op with
  | cpse => exact absurd rfl processes
  | _ => rfl

theorem run_execute_unary {op : UnaryOp} {r : Reg} {footprint : Footprint}
    (processes : unaryFootprint? op r = some footprint) (m : Machine World) :
    (execute env (.unary op r)).run m =
      (.ok 1, { m.unary op r with pc := following m.pc (.unary op r) }) := by
  cases op with
  | push | pop => cases processes
  | _ => rfl

theorem run_execute_cpse (rd rr : Reg) (m : Machine World) :
    ∃ (outcome : Outcome) (world : World), (execute env (.binary .cpse rd rr)).run m =
        (.ok outcome.cycles, { m with pc := outcome.pc, world }) ∧
      (world = m.world ∨
        m.flash.segment.bytes.size ≤ following m.pc (.binary .cpse rd rr) + 1) := by
  obtain ⟨outcome, world, skipped, heard⟩ :=
    run_skipIf env (following m.pc (.binary .cpse rd rr)) (m.reg rd = m.reg rr) m
  refine ⟨outcome, world, ?_, heard⟩
  have performed :
      (perform env (.binary .cpse rd rr) (following m.pc (.binary .cpse rd rr))).run m =
        (.ok outcome, { m with world }) :=
    congrArg (fun result : Outcome × Machine World => (Except.ok result.1, result.2)) skipped
  exact run_execute_of_performed performed

/-- What an instruction that only processes data has done. -/
structure Processed (i : Instr) (footprint : Footprint) (before after : Machine World) :
    Prop where
  touches : Touches footprint before after
  /-- Only a comparing skip at the end of flash tells the world anything. -/
  world : after.world = before.world ∨ (∃ rd rr, i = .binary .cpse rd rr) ∧
    before.flash.segment.bytes.size ≤ following before.pc i + 1

theorem data_processing_touches_only_its_footprint {i : Instr} {footprint : Footprint}
    (processes : footprint? i = some footprint) (m : Machine World) :
    ∃ cycles after, (execute env i).run m = (.ok cycles, after) ∧
      Processed i footprint m after := by
  cases i with
  | binary op rd rr =>
    cases processes
    by_cases compares : op = .cpse
    · subst compares
      obtain ⟨outcome, world, ran, heard⟩ := run_execute_cpse env rd rr m
      refine ⟨_, _, ran, ⟨rfl, rfl, fun _ _ => rfl, .none _⟩, ?_⟩
      exact heard.imp_right fun outside => ⟨⟨rd, rr, rfl⟩, outside⟩
    · exact ⟨_, _, run_execute_binary env compares rd rr m, (touches_binary op rd rr m).moveOn _,
        .inl ((computes_binary op rd rr).world m)⟩
  | immediate op rd k =>
    cases processes
    exact ⟨_, _, rfl, (touches_immediate op rd k m).moveOn _,
      .inl ((computes_immediate op rd k).world m)⟩
  | unary op r =>
    exact ⟨_, _, run_execute_unary env processes m, (touches_unary processes m).moveOn _,
      .inl ((computes_unary op r).world m)⟩
  | registerBit op r b =>
    cases op with
    | bst =>
      cases processes
      exact ⟨_, _, rfl, (touches_storeBit r b m).moveOn _, .inl rfl⟩
    | bld =>
      cases processes
      exact ⟨_, _, rfl, (Touches.setReg m r _).moveOn _, .inl rfl⟩
    | sbrc | sbrs => cases processes
  | _ => cases processes

/-- A product of `R0` and `R1`, which it replaces. -/
theorem data_processing_touches_only_its_footprint_product :
    let m : Machine Unit := (new smallPart ⟨.known 0, false, false⟩ ()).setPair 0 0xFFFF
    footprint? (.binary .mul 0 1) = some ⟨[0, 1], [.z, .c]⟩ ∧
      ∃ cycles after, (execute silence (.binary .mul 0 1)).run m = (.ok cycles, after) ∧
        Processed (.binary .mul 0 1) ⟨[0, 1], [.z, .c]⟩ m after := by
  intro m
  exact ⟨rfl, data_processing_touches_only_its_footprint silence rfl m⟩

end Avr.Machine

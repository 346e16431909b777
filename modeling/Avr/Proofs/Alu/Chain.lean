import Avr.Machine.Execute
import Avr.Proofs.Alu.Carry
import Avr.Proofs.Machine.FastPath
import Avr.Proofs.Machine.Respect

/-!
Contract: arithmetic on numbers of several bytes, one instruction for each byte.

Owns:
- the instructions that add, subtract and compare with a carry from byte to byte;
- runs of such instructions from the least significant byte on, with anything in between that
  leaves the status register alone;
- what the bytes and flags at the end of such a run say about the numbers;
- the word subtraction as a run over two bytes.

A run is described by its columns: the two bytes that an instruction meets, and the byte that its
register holds afterwards. So registers may be reused from one column to the next.
-/

namespace Avr.Machine

open Avr.Isa Avr.Alu

variable {World : Type} {env : Environment World}

/-! ### One column -/

/-- What a run of instructions computes. -/
inductive Chain where
  | sum
  | difference
  /-- The flags of the difference, which itself is dropped. -/
  | comparison
deriving DecidableEq, Repr

namespace Chain

def sign : Chain → Int
  | sum => 1
  | difference | comparison => -1

theorem sign_unit (chain : Chain) : chain.sign = 1 ∨ chain.sign = -1 := by
  cases chain <;> decide

/-- Result and flags of one column. -/
def column (chain : Chain) (carried : Bool) (left right : UInt8) (status : Status) :
    UInt8 × Status :=
  match chain with
  | sum => add left right (carried && status.c) status
  | difference | comparison => subtract carried left right status

/-- The machine after one column. -/
def store (chain : Chain) (m : Machine World) (rd : Reg) (result : UInt8 × Status) :
    Machine World :=
  match chain with
  | sum | difference => m.withResult rd result
  | comparison => m.withFlags result

theorem column_exact (chain : Chain) (carried : Bool) (left right : UInt8) (status : Status) :
    Exact chain.sign [left] [right] [(chain.column carried left right status).1]
      (carried && status.c) (chain.column carried left right status).2 := by
  cases chain with
  | sum => exact exact_add left right (carried && status.c) status
  | difference => exact exact_subtract carried left right status
  | comparison => exact exact_subtract carried left right status

/-- `Z` of a difference, which a run can only clear. -/
theorem column_zero (chain : Chain) (subtracts : chain ≠ .sum) (carried : Bool)
    (left right : UInt8) (status : Status) :
    (chain.column carried left right status).2.z = true ↔
      (chain.column carried left right status).1 = 0 ∧ (carried = true → status.z = true) := by
  have flag : (subtract carried left right status).2.z =
      (decide ((subtract carried left right status).1 = 0) && (!carried || status.z)) := rfl
  cases chain with
  | sum => exact absurd rfl subtracts
  | difference | comparison =>
    rw [column, flag, Bool.and_eq_true, decide_eq_true_eq]
    cases carried <;> cases status.z <;> simp

@[simp] theorem store_status (chain : Chain) (m : Machine World) (rd : Reg)
    (result : UInt8 × Status) : (chain.store m rd result).status = result.2 := by
  cases chain <;> rfl

/-- The instruction takes part in a chain: it works on a register and a byte, with or without the
carry of the column before. -/
inductive Performs (m : Machine World) : Chain → Bool → Instr → Reg → UInt8 → Prop
  | add (rd rr : Reg) : Performs m sum false (.binary .add rd rr) rd (m.reg rr)
  | adc (rd rr : Reg) : Performs m sum true (.binary .adc rd rr) rd (m.reg rr)
  | sub (rd rr : Reg) : Performs m difference false (.binary .sub rd rr) rd (m.reg rr)
  | sbc (rd rr : Reg) : Performs m difference true (.binary .sbc rd rr) rd (m.reg rr)
  | subi (rd : Reg) (k : UInt8) : Performs m difference false (.immediate .subi rd k) rd k
  | sbci (rd : Reg) (k : UInt8) : Performs m difference true (.immediate .sbci rd k) rd k
  | cp (rd rr : Reg) : Performs m comparison false (.binary .cp rd rr) rd (m.reg rr)
  | cpi (rd : Reg) (k : UInt8) : Performs m comparison false (.immediate .cpi rd k) rd k
  | cpc (rd rr : Reg) : Performs m comparison true (.binary .cpc rd rr) rd (m.reg rr)

theorem Performs.run {m : Machine World} {chain : Chain} {carried : Bool} {i : Instr}
    {rd : Reg} {right : UInt8} (performs : Performs m chain carried i rd right)
    (env : Environment World) :
    (execute env i).run m =
      (.ok 1, { chain.store m rd (chain.column carried (m.reg rd) right m.status) with
        pc := following m.pc i }) := by
  cases performs <;> rfl

end Chain

theorem reg_setReg (m : Machine World) (r : Reg) (value : UInt8)
    (registers : registerCount ≤ m.data.bytes.size) : (m.setReg r value).reg r = value := by
  have inside : r.val < m.data.bytes.size := Nat.lt_of_lt_of_le r.isLt registers
  rw [reg, byteAt, setReg, setByteAt, Array.getD_eq_getD_getElem?, Array.getElem?_setIfInBounds,
    if_pos rfl, if_pos inside, Option.getD_some]

/-- What the flags and the register of a column are after it. -/
theorem Chain.Performs.effect {chain : Chain} {carried : Bool} {before after : Machine World}
    {i : Instr} {rd : Reg} {right : UInt8} {cycles : Nat}
    (performs : chain.Performs before carried i rd right)
    (ran : (execute env i).run before = (.ok cycles, after))
    (registers : registerCount ≤ before.data.bytes.size) :
    after.status = (chain.column carried (before.reg rd) right before.status).2 ∧
      after.reg rd = if chain = .comparison then before.reg rd
        else (chain.column carried (before.reg rd) right before.status).1 := by
  rw [performs.run env] at ran
  obtain rfl := congrArg Prod.snd ran
  refine ⟨chain.store_status before rd _, ?_⟩
  cases chain with
  | sum | difference => exact reg_setReg before rd _ registers
  | comparison => rfl

/-! ### Runs over the columns -/

/-- The bytes that one instruction of a chain meets and leaves. -/
structure Column where
  left : UInt8
  right : UInt8
  /-- What the register of the left byte holds afterwards. -/
  after : UInt8
deriving DecidableEq, Repr

namespace Column

/-- The number in the left bytes, in the right bytes, and in the bytes afterwards. -/
def lefts (columns : List Column) : List UInt8 := columns.map left

def rights (columns : List Column) : List UInt8 := columns.map right

def afters (columns : List Column) : List UInt8 := columns.map after

end Column

/-- A chain runs over columns, the first of them with or without a carry. What happens between the
columns may be anything that leaves the status register alone. -/
inductive Columns (env : Environment World) (chain : Chain) :
    Bool → Machine World → List Column → Machine World → Prop
  | done {carried : Bool} {m last : Machine World} (between : last.status = m.status) :
      Columns env chain carried m [] last
  | column {carried : Bool} {m before after last : Machine World} {i : Instr} {rd : Reg}
      {right : UInt8} {cycles : Nat} {columns : List Column}
      (between : before.status = m.status)
      (registers : registerCount ≤ before.data.bytes.size)
      (performs : chain.Performs before carried i rd right)
      (ran : (execute env i).run before = (.ok cycles, after))
      (others : Columns env chain true after columns last) :
      Columns env chain carried m (⟨before.reg rd, right, after.reg rd⟩ :: columns) last

/-- The digits that a chain computes, and what it leaves in registers and flags. -/
structure Chain.Computes (chain : Chain) (carried : Bool) (before : Status)
    (columns : List Column) (digits : List UInt8) (status : Status) : Prop where
  exact : Exact chain.sign (Column.lefts columns) (Column.rights columns) digits
    (carried && before.c) status
  after : Column.afters columns =
    if chain = .comparison then Column.lefts columns else digits
  zero : chain ≠ .sum →
    (status.z = true ↔ value digits = 0 ∧ (carried = true → before.z = true))

/-- By induction on the run: the carry of a column is the one that the rest begins with. -/
theorem Columns.computes {chain : Chain} {carried : Bool} {m last : Machine World}
    {columns : List Column} (run : Columns env chain carried m columns last)
    (more : columns ≠ []) :
    ∃ digits, chain.Computes carried m.status columns digits last.status := by
  induction run with
  | done => exact absurd rfl more
  | @column carried m before after last i rd right cycles columns between registers performs ran
      others inductionHypothesis =>
    obtain ⟨status, left⟩ := performs.effect ran registers
    have exact := chain.column_exact carried (before.reg rd) right before.status
    have zero (subtracts : chain ≠ .sum) :=
      chain.column_zero subtracts carried (before.reg rd) right before.status
    rw [left]
    rw [between] at exact zero status ⊢
    generalize chain.column carried (before.reg rd) right m.status = result at exact zero status ⊢
    rw [status] at inductionHypothesis
    cases columns with
    | nil =>
      cases others with
      | done same =>
        rw [same, status]
        refine ⟨[result.1], exact, ?_, fun subtracts => ?_⟩
        · simp only [Column.afters, Column.lefts, List.map_cons, List.map_nil]
          split <;> rfl
        · rw [zero subtracts, value_cons_eq_zero]
          exact and_congr_left fun _ => (and_iff_left rfl).symm
    | cons next columns =>
      obtain ⟨digits, rest⟩ := inductionHypothesis (List.cons_ne_nil _ _)
      have filled : digits ≠ [] := by
        rintro rfl
        exact absurd rest.exact.left (by simp [Column.lefts])
      refine ⟨result.1 :: digits, exact.cons chain.sign_unit rest.exact filled, ?_,
        fun subtracts => ?_⟩
      · have after := rest.after
        simp only [Column.afters, Column.lefts, List.map_cons] at after ⊢
        rw [after]
        split <;> rfl
      · rw [rest.zero subtracts, eq_self, true_implies, zero subtracts, value_cons_eq_zero]
        exact and_left_comm.trans and_assoc.symm

/-! ### What the numbers are -/

section

variable (columns : List Column) (status : Status)

/-- The bytes and flags at the end are those of the sum. -/
structure IsSum : Prop where
  number : value (Column.afters columns) =
    (value (Column.lefts columns) + value (Column.rights columns)) % 256 ^ columns.length
  carry : status.c = true ↔
    256 ^ columns.length ≤ value (Column.lefts columns) + value (Column.rights columns)
  overflow : status.v = true ↔ ¬ Fits columns.length
    (signedValue (Column.lefts columns) + signedValue (Column.rights columns))
  negative : status.n = true ↔ signedValue (Column.afters columns) < 0
  sign : status.s = true ↔
    signedValue (Column.lefts columns) + signedValue (Column.rights columns) < 0

/-- The bytes at the end are those of the difference. -/
def IsDifference : Prop :=
  (value (Column.afters columns) : Int) =
    ((value (Column.lefts columns) : Int) - value (Column.rights columns)) % 256 ^ columns.length

/-- The flags at the end compare the numbers. -/
structure IsCompared : Prop where
  less : status.c = true ↔ value (Column.lefts columns) < value (Column.rights columns)
  equal : status.z = true ↔ value (Column.lefts columns) = value (Column.rights columns)
  overflow : status.v = true ↔ ¬ Fits columns.length
    (signedValue (Column.lefts columns) - signedValue (Column.rights columns))
  signedLess : status.s = true ↔
    signedValue (Column.lefts columns) < signedValue (Column.rights columns)

end

theorem Columns.isSum {m last : Machine World} {columns : List Column}
    (run : Columns env .sum false m columns last) (more : columns ≠ []) :
    IsSum columns last.status := by
  obtain ⟨digits, exact, after, -⟩ := run.computes more
  replace after : Column.afters columns = digits := after
  have length : digits.length = columns.length := by
    rw [← after, Column.afters, List.length_map]
  have plain (x y : Int) : total Chain.sum.sign x y false = x + y := by
    rw [total, Chain.sign, Bool.toNat_false, Int.natCast_zero, Int.add_zero, Int.one_mul]
  rw [Bool.false_and] at exact
  obtain ⟨number, carry⟩ := exact.sum
  have overflow := exact.overflow
  have order := exact.order
  rw [length] at number carry overflow
  rw [plain] at overflow order
  exact ⟨after ▸ number, carry, overflow, after ▸ exact.negative, order⟩

theorem Columns.isCompared {chain : Chain} (subtracts : chain ≠ .sum) {m last : Machine World}
    {columns : List Column} (run : Columns env chain false m columns last)
    (more : columns ≠ []) : IsCompared columns last.status := by
  obtain ⟨digits, exact, -, zero⟩ := run.computes more
  have sign : chain.sign = -1 := by cases chain <;> trivial
  have length : digits.length = columns.length := by
    rw [← exact.left, Column.lefts, List.length_map]
  have plain (x y : Int) : total (-1) x y false = x - y := by
    rw [total, Bool.toNat_false, Int.natCast_zero, Int.add_zero, Int.neg_one_mul,
      ← Int.sub_eq_add_neg]
  rw [Bool.false_and, sign] at exact
  obtain ⟨-, less, equal⟩ := exact.difference
  have overflow := exact.overflow
  have order := exact.order
  rw [plain] at overflow order
  rw [length] at overflow
  refine ⟨less, ?_, overflow, order.trans (by omega)⟩
  rw [zero subtracts, equal]
  exact and_iff_left fun carried => absurd carried Bool.false_ne_true

theorem Columns.isDifference {m last : Machine World} {columns : List Column}
    (run : Columns env .difference false m columns last) (more : columns ≠ []) :
    IsDifference columns := by
  obtain ⟨digits, exact, after, -⟩ := run.computes more
  replace after : Column.afters columns = digits := after
  have length : digits.length = columns.length := by
    rw [← after, Column.afters, List.length_map]
  rw [Bool.false_and] at exact
  have number := exact.difference.1
  rw [length] at number
  rw [IsDifference, after]
  exact number

/-! ### A word and a constant -/

theorem testBit_fifteen (low high : UInt8) :
    (low.toNat + 256 * high.toNat).testBit 15 = byteBit high 7 := by
  have smallLow := low.toNat_lt
  rw [byteBit, Nat.testBit_eq_decide_div_mod_eq, Nat.testBit_eq_decide_div_mod_eq]
  congr 2
  omega

theorem toNat_wordOfBytes (low high : UInt8) :
    (wordOfBytes low high).toNat = low.toNat + 256 * high.toNat := by
  have smallLow := low.toNat_lt
  have smallHigh := high.toNat_lt
  rw [wordOfBytes, UInt16.toNat_ofNat']
  omega

/-- The two bytes make the word difference, and borrow if the constant is greater. -/
theorem toNat_subtractWord (low high k : UInt8) (status : Status) :
    let first := subtract false low k status
    let second := subtract true high 0 first.2
    (subtractWord (wordOfBytes low high) k status).1.toNat =
        first.1.toNat + 256 * second.1.toNat ∧
      ((first.1.toNat + 256 * second.1.toNat : Nat) : Int) =
        ((low.toNat + 256 * high.toNat : Nat) - k.toNat) % 65536 ∧
      (second.2.c = true ↔ low.toNat + 256 * high.toNat < k.toNat) := by
  intro first second
  have smallLow := low.toNat_lt
  have smallHigh := high.toNat_lt
  have smallK := k.toNat_lt
  have smallFirst := first.1.toNat_lt
  have smallSecond := second.1.toNat_lt
  have exact : Exact (-1) [low, high] [k, 0] [first.1, second.1] false second.2 :=
    (exact_subtract false low k status).cons (.inr rfl)
      (exact_subtract true high 0 first.2) (List.cons_ne_nil _ _)
  obtain ⟨number, borrow, -⟩ := exact.difference
  simp only [value, List.length_cons, List.length_nil, UInt8.toNat_zero] at number borrow
  refine ⟨?_, ?_, ?_⟩
  · simp only [subtractWord, UInt16.toNat_sub, UInt8.toNat_toUInt16, toNat_wordOfBytes]
    omega
  · omega
  · rw [borrow]
    omega

/-- `Z` of the second byte is set only if the first byte has set it. -/
theorem subtractWord_zero (low high k : UInt8) (status : Status) :
    decide ((subtractWord (wordOfBytes low high) k status).1 = 0) =
      (subtract true high 0 (subtract false low k status).2).2.z := by
  have firstZero := Chain.column_zero .difference (by decide) false low k status
  have secondZero := Chain.column_zero .difference (by decide) true high 0
    (subtract false low k status).2
  simp only [Chain.column] at firstZero secondZero
  obtain ⟨result, -⟩ := toNat_subtractWord low high k status
  rw [Bool.eq_iff_iff, decide_eq_true_eq, secondZero, firstZero, ← UInt16.toNat_inj, result,
    ← UInt8.toNat_inj, ← UInt8.toNat_inj, UInt16.toNat_zero, UInt8.toNat_zero]
  simp only [Bool.false_eq_true, false_implies, and_true, true_implies]
  omega

/-- The word subtraction leaves what the two bytes leave, apart from `H`, which it keeps. -/
theorem subtractWord_eq (low high k : UInt8) (status : Status) :
    let first := subtract false low k status
    let second := subtract true high 0 first.2
    let word := subtractWord (wordOfBytes low high) k status
    UInt8.ofNat word.1.toNat = first.1 ∧ UInt8.ofNat (word.1.toNat / 256) = second.1 ∧
      word.2 = { second.2 with h := status.h } := by
  intro first second word
  have smallLow := low.toNat_lt
  have smallHigh := high.toNat_lt
  have smallK := k.toNat_lt
  have smallFirst := first.1.toNat_lt
  have smallSecond := second.1.toNat_lt
  obtain ⟨result, number, borrow⟩ := toNat_subtractWord low high k status
  change word.1.toNat = first.1.toNat + 256 * second.1.toNat at result
  have zero : decide (word.1 = 0) = second.2.z := subtractWord_zero low high k status
  have bitBefore := testBit_fifteen low high
  have bitAfter := testBit_fifteen first.1 second.1
  rw [← toNat_wordOfBytes] at bitBefore
  rw [← result] at bitAfter
  have carry : second.2.c = (!byteBit high 7 && byteBit second.1 7) := by
    rw [Bool.eq_iff_iff, borrow, Bool.and_eq_true, Bool.not_eq_true', ← Bool.not_eq_true,
      byteBit_seven_iff, byteBit_seven_iff]
    change ((first.1.toNat + 256 * second.1.toNat : Nat) : Int) = _ at number
    omega
  have overflow : second.2.v = (byteBit high 7 && !byteBit second.1 7) := by
    change byteBit (high &&& ~~~0 &&& ~~~second.1 ||| ~~~high &&& 0 &&& second.1) 7 = _
    have below : 7 < 8 := by decide
    rw [byteBit_or, byteBit_and, byteBit_and, byteBit_and, byteBit_and, byteBit_not second.1 below,
      show byteBit (~~~0) 7 = true from rfl, show byteBit 0 7 = false from rfl, Bool.and_true,
      Bool.and_false, Bool.false_and, Bool.or_false]
  refine ⟨?_, ?_, ?_⟩
  · rw [result, ← UInt8.toNat_inj, UInt8.toNat_ofNat']
    omega
  · rw [result, ← UInt8.toNat_inj, UInt8.toNat_ofNat']
    omega
  · have flags : second.2 = ⟨status.i, status.t, second.2.h, second.2.n ^^ second.2.v, second.2.v,
      byteBit second.1 7, second.2.z, second.2.c⟩ := rfl
    rw [flags, carry, overflow, ← zero]
    simp only [word, subtractWord, wordFlags] at bitAfter ⊢
    rw [bitBefore, bitAfter]
    rfl

theorem pairHigh_ne (low : Reg) : pairHigh low ≠ low := by
  intro same
  have value := congrArg Fin.val same
  rw [pairHigh, Fin.val_add] at value
  have bound := low.isLt
  change (low.val + 1) % 32 = low.val at value
  omega

theorem reg_setReg_of_ne (m : Machine World) {r other : Reg} (different : other ≠ r)
    (value : UInt8) : (m.setReg r value).reg other = m.reg other := by
  have apart : r.val ≠ other.val := fun same => different (Fin.eq_of_val_eq same).symm
  rw [reg, byteAt, setReg, setByteAt, Array.getD_eq_getD_getElem?, Array.getElem?_setIfInBounds,
    if_neg apart, ← Array.getD_eq_getD_getElem?]
  rfl

/-- `SBIW` does what `SUBI` and `SBCI` do on its two registers. -/
theorem subtractWord_chain (env : Environment World) (m : Machine World) (low : Reg)
    (k : UInt8) : ∃ word first second,
      (execute env (.immediate .sbiw low k)).run m = (.ok 2, word) ∧
        (execute env (.immediate .subi low k)).run m = (.ok 1, first) ∧
        (execute env (.immediate .sbci (pairHigh low) 0)).run first = (.ok 1, second) ∧
        word.data = second.data ∧ word.status = { second.status with h := m.status.h } := by
  obtain ⟨lowByte, highByte, flags⟩ :=
    subtractWord_eq (m.reg low) (m.reg (pairHigh low)) k m.status
  let after (op : ImmediateOp) (rd : Reg) (k : UInt8) (m : Machine World) : Machine World :=
    { m.immediate op rd k with pc := following m.pc (.immediate op rd k) }
  let first := after .subi low k m
  have highKept : first.reg (pairHigh low) = m.reg (pairHigh low) :=
    reg_setReg_of_ne m (pairHigh_ne low) _
  refine ⟨after .sbiw low k m, first, after .sbci (pairHigh low) 0 first, rfl, rfl, rfl, ?_, ?_⟩
  · change (m.setPair low (subtractWord (m.pair low) k m.status).1).data =
      (first.setReg (pairHigh low)
        (subtract true (first.reg (pairHigh low)) 0 first.status).1).data
    rw [highKept, setPair, pair, lowByte]
    exact congrArg (fun value => (first.setReg (pairHigh low) value).data) highByte
  · change (subtractWord (m.pair low) k m.status).2 =
      { (subtract true (first.reg (pairHigh low)) 0 first.status).2 with h := m.status.h }
    rw [highKept]
    exact flags

/-! ### Arithmetic of any length -/

theorem multibyte_arithmetic_is_exact (env : Environment World) :
    (∀ {m : Machine World} {chain : Chain} {carried : Bool} {i : Instr} {rd : Reg}
        {right : UInt8}, chain.Performs m carried i rd right →
      ∃ after, (execute env i).run m = (.ok 1, after) ∧
        (chain = .comparison → after.data = m.data)) ∧
    (∀ {m last : Machine World} {columns : List Column},
      Columns env .sum false m columns last → columns ≠ [] → IsSum columns last.status) ∧
    (∀ {m last : Machine World} {columns : List Column},
      Columns env .difference false m columns last → columns ≠ [] →
        IsDifference columns ∧ IsCompared columns last.status) ∧
    (∀ {m last : Machine World} {columns : List Column},
      Columns env .comparison false m columns last → columns ≠ [] →
        IsCompared columns last.status) ∧
    ∀ (m : Machine World) (low : Reg) (k : UInt8), ∃ word first second,
      (execute env (.immediate .sbiw low k)).run m = (.ok 2, word) ∧
        (execute env (.immediate .subi low k)).run m = (.ok 1, first) ∧
        (execute env (.immediate .sbci (pairHigh low) 0)).run first = (.ok 1, second) ∧
        word.data = second.data ∧ word.status = { second.status with h := m.status.h } := by
  refine ⟨fun performs => ⟨_, performs.run env, ?_⟩, Columns.isSum,
    fun run more => ⟨run.isDifference more, run.isCompared (by decide) more⟩,
    fun run more => run.isCompared (by decide) more, subtractWord_chain env⟩
  rintro rfl
  rfl

/-- The sum of 255 and 1, with a constant loaded between the two columns. -/
theorem multibyte_arithmetic_is_exact_carried :
    let m : Machine Unit := ((new smallPart ⟨.known 0, false, false⟩ ()).setPair 0 255).setPair 2 1
    let first := ((execute silence (.binary .add 0 2)).run m).2
    let loaded := ((execute silence (.immediate .ldi 16 7)).run first).2
    let second := ((execute silence (.binary .adc 1 3)).run loaded).2
    let columns : List Column := [⟨255, 1, 0⟩, ⟨0, 0, 1⟩]
    Columns silence .sum false m columns second ∧ IsSum columns second.status := by
  intro m first loaded second columns
  have met : columns = [⟨m.reg 0, m.reg 2, first.reg 0⟩,
      ⟨loaded.reg 1, loaded.reg 3, second.reg 1⟩] := by decide +kernel
  have run : Columns silence .sum false m columns second := by
    rw [met]
    exact .column rfl (by decide +kernel) (.add 0 2) rfl
      (.column rfl (by decide +kernel) (.adc 1 3) rfl (.done rfl))
  exact ⟨run, (multibyte_arithmetic_is_exact silence).2.1 run (List.cons_ne_nil _ _)⟩

end Avr.Machine

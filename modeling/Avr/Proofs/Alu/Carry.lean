import Avr.Alu
import Mathlib.Algebra.Group.Int.Defs
import Mathlib.Algebra.Group.Nat.Defs
import Mathlib.Tactic.IntervalCases

/-!
Contract: what carries and flags mean for numbers of several bytes.

Owns:
- the number that a list of bytes stands for, without and with a sign;
- what the flags say about a sum or difference of such numbers;
- the carries of one byte, which the bits of its operands and of its result tell, as comparisons;
- the law of one byte, and how the law of a longer number follows from that of its first byte and
  that of the rest.

The law of the rest begins with the carry that the first byte leaves. Its flags are those of the
whole number, because signs and overflow are decided by the last byte alone.
-/

namespace Avr.Alu

/-! ### Numbers of several bytes -/

/-- The number that bytes stand for, the least significant byte first. -/
def value : List UInt8 → Nat
  | [] => 0
  | byte :: rest => byte.toNat + 256 * value rest

/-- The number that bytes stand for in two's complement. -/
def signedValue (bytes : List UInt8) : Int :=
  if 2 * value bytes < 256 ^ bytes.length then value bytes
  else (value bytes : Int) - 256 ^ bytes.length

theorem value_lt (bytes : List UInt8) : value bytes < 256 ^ bytes.length := by
  induction bytes with
  | nil => decide
  | cons byte rest inductionHypothesis =>
      have small := byte.toNat_lt
      rw [value, List.length_cons, Nat.pow_succ]
      omega

theorem natCast_modulus (bytes : Nat) : ((256 ^ bytes : Nat) : Int) = 256 ^ bytes :=
  Int.natCast_pow 256 bytes

theorem value_cons_eq_zero (byte : UInt8) (rest : List UInt8) :
    value (byte :: rest) = 0 ↔ byte = 0 ∧ value rest = 0 := by
  rw [value, ← UInt8.toNat_inj, UInt8.toNat_zero]
  omega

theorem signedValue_singleton (byte : UInt8) : signedValue [byte] = signedByte byte := by
  have single : value [byte] = byte.toNat := rfl
  rw [signedValue, signedByte, single, List.length_singleton]
  split <;> split <;> omega

theorem signedValue_cons (byte : UInt8) {rest : List UInt8} (more : rest ≠ []) :
    signedValue (byte :: rest) = byte.toNat + 256 * signedValue rest := by
  obtain ⟨next, others, rfl⟩ := List.exists_cons_of_ne_nil more
  have small := byte.toNat_lt
  rw [signedValue, signedValue, value, List.length_cons, List.length_cons]
  -- Half of the modulus of the rest is a whole number, so the first byte does not tip the balance.
  generalize value (next :: others) = number
  split <;> split <;> omega

/-! ### The law of a sum or difference -/

/-- The sum, or with `sign = -1` the difference, of two numbers with a carry. -/
def total (sign left right : Int) (carry : Bool) : Int :=
  left + sign * (right + carry.toNat)

/-- The number fits into two's complement of a number of bytes. -/
def Fits (bytes : Nat) (number : Int) : Prop :=
  -256 ^ bytes ≤ 2 * number ∧ 2 * number < 256 ^ bytes

/-- Digits and flags are those of the sum or difference of two numbers of as many bytes. -/
structure Exact (sign : Int) (a b digits : List UInt8) (carry : Bool) (status : Status) :
    Prop where
  left : a.length = digits.length
  right : b.length = digits.length
  number : (value digits : Int) =
    total sign (value a) (value b) carry - sign * (256 ^ digits.length * status.c.toNat)
  negative : status.n = true ↔ signedValue digits < 0
  overflow : status.v = true ↔
    ¬ Fits digits.length (total sign (signedValue a) (signedValue b) carry)
  order : status.s = true ↔ total sign (signedValue a) (signedValue b) carry < 0

theorem Exact.cons {sign : Int} (unit : sign = 1 ∨ sign = -1) {as bs digits : List UInt8}
    {carry : Bool} {a b digit : UInt8} {middle status : Status}
    (first : Exact sign [a] [b] [digit] carry middle)
    (rest : Exact sign as bs digits middle.c status) (more : digits ≠ []) :
    Exact sign (a :: as) (b :: bs) (digit :: digits) carry status := by
  have filled : 0 < digits.length := List.length_pos_iff.mpr more
  have moreLeft : as ≠ [] := List.length_pos_iff.mp (rest.left ▸ filled)
  have moreRight : bs ≠ [] := List.length_pos_iff.mp (rest.right ▸ filled)
  have small := digit.toNat_lt
  -- The total of the whole is the first digit and 256 times the total of the rest.
  have number : (digit.toNat : Int) =
      total sign a.toNat b.toNat carry - sign * (256 * middle.c.toNat) := first.number
  have carried (x y : Int) :
      total sign (a.toNat + 256 * x) (b.toNat + 256 * y) carry =
        digit.toNat + 256 * total sign x y middle.c := by
    simp only [total] at number ⊢
    rcases unit with rfl | rfl <;> omega
  have signed : total sign (signedValue (a :: as)) (signedValue (b :: bs)) carry =
      digit.toNat + 256 * total sign (signedValue as) (signedValue bs) middle.c := by
    rw [signedValue_cons a moreLeft, signedValue_cons b moreRight, carried]
  refine ⟨congrArg (· + 1) rest.left, congrArg (· + 1) rest.right, ?_, ?_, ?_, ?_⟩
  · have restNumber := rest.number
    simp only [value, List.length_cons, Int.natCast_add, Int.natCast_mul, Int.cast_ofNat_Int]
    rw [carried, restNumber]
    rcases unit with rfl | rfl <;> cases status.c <;>
      simp only [Bool.toNat_false, Bool.toNat_true] <;> omega
  · rw [rest.negative, signedValue_cons digit more]
    omega
  · obtain ⟨half, even⟩ : ∃ half : Int, 256 ^ digits.length = 2 * half := by
      obtain ⟨last, length⟩ := Nat.exists_eq_succ_of_ne_zero (Nat.ne_of_gt filled)
      exact ⟨128 * 256 ^ last, by rw [length]; omega⟩
    rw [rest.overflow, signed, List.length_cons, Fits, Fits]
    omega
  · rw [rest.order, signed]
    omega

/-! ### What the carry at the end means -/

section

variable {a b digits : List UInt8} {status : Status}

theorem Exact.sum (exact : Exact 1 a b digits false status) :
    value digits = (value a + value b) % 256 ^ digits.length ∧
      (status.c = true ↔ 256 ^ digits.length ≤ value a + value b) := by
  have small := value_lt digits
  have modulus := natCast_modulus digits.length
  have number := exact.number
  rw [total] at number
  cases carry : status.c <;> rw [carry] at number <;>
    simp only [Bool.toNat_false, Bool.toNat_true] at number
  · have whole : value a + value b = value digits := by omega
    rw [whole, Nat.mod_eq_of_lt small]
    exact ⟨rfl, iff_of_false Bool.false_ne_true (Nat.not_le.mpr small)⟩
  · have whole : value a + value b = value digits + 256 ^ digits.length := by
      rw [← modulus] at number
      omega
    rw [whole, Nat.add_mod_right, Nat.mod_eq_of_lt small]
    exact ⟨rfl, iff_of_true rfl (Nat.le_add_left _ _)⟩

theorem Exact.difference (exact : Exact (-1) a b digits false status) :
    (value digits : Int) = ((value a : Int) - value b) % 256 ^ digits.length ∧
      (status.c = true ↔ value a < value b) ∧ (value digits = 0 ↔ value a = value b) := by
  have modulus := natCast_modulus digits.length
  have small : (value digits : Int) < 256 ^ digits.length :=
    modulus ▸ Int.ofNat_lt.mpr (value_lt digits)
  have smallB : (value b : Int) < 256 ^ digits.length :=
    modulus ▸ Int.ofNat_lt.mpr (exact.right ▸ value_lt b)
  have number := exact.number
  rw [total] at number
  cases carry : status.c <;> rw [carry] at number <;>
    simp only [Bool.toNat_false, Bool.toNat_true] at number
  · have whole : (value a : Int) - value b = value digits := by omega
    rw [whole, Int.emod_eq_of_lt (Int.natCast_nonneg _) small]
    exact ⟨rfl, iff_of_false Bool.false_ne_true (by omega), by omega⟩
  · have whole : (value a : Int) - value b = value digits - 256 ^ digits.length := by omega
    rw [whole, Int.sub_emod_right, Int.emod_eq_of_lt (Int.natCast_nonneg _) small]
    exact ⟨rfl, iff_of_true rfl (by omega), by omega⟩

end

/-! ### One byte -/

theorem byteBit_iff (byte : UInt8) (n : Nat) :
    byteBit byte n = true ↔ byte.toNat / 2 ^ n % 2 = 1 := by
  rw [byteBit, Nat.testBit_eq_decide_div_mod_eq, decide_eq_true_eq]

theorem byteBit_seven_iff (byte : UInt8) : byteBit byte 7 = true ↔ 128 ≤ byte.toNat := by
  have small := byte.toNat_lt
  rw [byteBit_iff]
  omega

theorem byteBit_not_iff (byte : UInt8) {n : Nat} (below : n < 8) :
    byteBit (~~~byte) n = true ↔ ¬ byteBit byte n = true := by
  rw [byteBit_not byte below, Bool.not_eq_true', Bool.not_eq_true]

/-- A bit of the majority of three bytes. -/
theorem byteBit_majority_iff (x y z : UInt8) (n : Nat) :
    byteBit (x &&& y ||| y &&& z ||| z &&& x) n = true ↔
      byteBit x n = true ∧ byteBit y n = true ∨ byteBit y n = true ∧ byteBit z n = true ∨
        byteBit z n = true ∧ byteBit x n = true := by
  simp only [byteBit_or, byteBit_and, Bool.or_eq_true, Bool.and_eq_true, or_assoc]

/-- The carry out of a bit: the sum of the operands up to this bit does not fit into as many. -/
theorem carry_iff {a b result : UInt8} {carry : Bool}
    (sum : result.toNat = (a.toNat + b.toNat + carry.toNat) % 256) {n : Nat} (below : n < 8) :
    byteBit (a &&& b ||| b &&& ~~~result ||| ~~~result &&& a) n = true ↔
      2 ^ (n + 1) ≤ a.toNat % 2 ^ (n + 1) + b.toNat % 2 ^ (n + 1) + carry.toNat := by
  have smallA := a.toNat_lt
  have smallB := b.toNat_lt
  have oneCarry := carry.toNat_le
  rw [byteBit_majority_iff, byteBit_not_iff result below, byteBit_iff, byteBit_iff, byteBit_iff]
  interval_cases n <;> omega

/-- The borrow out of a bit: the operand up to this bit is less than what is subtracted. -/
theorem borrow_iff {a b result : UInt8} {borrow : Bool}
    (difference : result.toNat = (a.toNat + 512 - b.toNat - borrow.toNat) % 256) {n : Nat}
    (below : n < 8) :
    byteBit (~~~a &&& b ||| b &&& result ||| result &&& ~~~a) n = true ↔
      a.toNat % 2 ^ (n + 1) < b.toNat % 2 ^ (n + 1) + borrow.toNat := by
  have smallA := a.toNat_lt
  have smallB := b.toNat_lt
  have oneBorrow := borrow.toNat_le
  rw [byteBit_majority_iff, byteBit_not_iff a below, byteBit_iff, byteBit_iff, byteBit_iff]
  interval_cases n <;> omega

/-- The law of one byte follows from its digit and carry, and from the flags of its result. -/
theorem Exact.single {sign : Int} (unit : sign = 1 ∨ sign = -1) {a b digit : UInt8} {carry : Bool}
    {status : Status}
    (number : (digit.toNat : Int) =
      total sign a.toNat b.toNat carry - sign * (256 * status.c.toNat))
    (negative : status.n = byteBit digit 7)
    (overflow : status.v = true ↔ ¬ Fits 1 (total sign (signedByte a) (signedByte b) carry))
    (order : status.s = (status.n ^^ status.v)) : Exact sign [a] [b] [digit] carry status := by
  have smallA := a.toNat_lt
  have smallB := b.toNat_lt
  have small := digit.toNat_lt
  have oneCarry := carry.toNat_le
  have oneC := status.c.toNat_le
  have negativeIff : status.n = true ↔ 128 ≤ digit.toNat := by rw [negative, byteBit_seven_iff]
  have orderIff : status.s = true ↔ ¬ (status.n = true ↔ status.v = true) := by
    rw [order]
    cases status.n <;> cases status.v <;> decide
  refine ⟨rfl, rfl, number, ?_, ?_, ?_⟩
  · rw [negativeIff, signedValue_singleton, signedByte]
    split <;> omega
  · rw [overflow, signedValue_singleton, signedValue_singleton]
    rfl
  · rw [orderIff, negativeIff, overflow, signedValue_singleton, signedValue_singleton]
    simp only [Fits, total, signedByte] at number ⊢
    rcases unit with rfl | rfl <;> split <;> split <;> omega

section

variable (chain : Bool) (a b : UInt8) (carry : Bool) (status : Status)

theorem toNat_add :
    (add a b carry status).1.toNat = (a.toNat + b.toNat + carry.toNat) % 256 := by
  have oneCarry := carry.toNat_le
  simp only [add, UInt8.toNat_add, UInt8.toNat_ofNat']
  omega

/-- The half carry and the carry of a sum. -/
theorem carries_add :
    ((add a b carry status).2.h = true ↔ 16 ≤ a.toNat % 16 + b.toNat % 16 + carry.toNat) ∧
      ((add a b carry status).2.c = true ↔ 256 ≤ a.toNat + b.toNat + carry.toNat) := by
  have sum := toNat_add a b carry status
  have full : (add a b carry status).2.c = true ↔
      256 ≤ a.toNat % 256 + b.toNat % 256 + carry.toNat := carry_iff sum (by decide : 7 < 8)
  rw [Nat.mod_eq_of_lt a.toNat_lt, Nat.mod_eq_of_lt b.toNat_lt] at full
  exact ⟨carry_iff sum (by decide : 3 < 8), full⟩

theorem toNat_subtract :
    (subtract chain a b status).1.toNat =
      (a.toNat + 512 - b.toNat - (chain && status.c).toNat) % 256 := by
  have smallB := b.toNat_lt
  have oneBorrow := (chain && status.c).toNat_le
  simp only [subtract, UInt8.toNat_sub, UInt8.toNat_ofNat']
  omega

/-- The half borrow and the borrow of a difference. -/
theorem borrows_subtract :
    ((subtract chain a b status).2.h = true ↔
        a.toNat % 16 < b.toNat % 16 + (chain && status.c).toNat) ∧
      ((subtract chain a b status).2.c = true ↔
        a.toNat < b.toNat + (chain && status.c).toNat) := by
  have difference := toNat_subtract chain a b status
  have full : (subtract chain a b status).2.c = true ↔
      a.toNat % 256 < b.toNat % 256 + (chain && status.c).toNat :=
    borrow_iff difference (by decide : 7 < 8)
  rw [Nat.mod_eq_of_lt a.toNat_lt, Nat.mod_eq_of_lt b.toNat_lt] at full
  exact ⟨borrow_iff difference (by decide : 3 < 8), full⟩

theorem exact_add :
    Exact 1 [a] [b] [(add a b carry status).1] carry (add a b carry status).2 := by
  have smallA := a.toNat_lt
  have smallB := b.toNat_lt
  have oneCarry := carry.toNat_le
  have oneC := (add a b carry status).2.c.toNat_le
  have result := toNat_add a b carry status
  obtain ⟨-, full⟩ := carries_add a b carry status
  refine .single (.inl rfl) ?_ rfl ?_ rfl
  · rw [← Bool.toNat_eq_one] at full
    rw [result, total]
    omega
  · change byteBit (a &&& b &&& ~~~(add a b carry status).1 |||
      ~~~a &&& ~~~b &&& (add a b carry status).1) 7 = true ↔ _
    simp only [byteBit_or, byteBit_and, Bool.or_eq_true, Bool.and_eq_true,
      byteBit_not_iff _ (by decide : 7 < 8), byteBit_seven_iff, result, Fits, total, signedByte]
    split <;> split <;> omega

theorem exact_subtract :
    Exact (-1) [a] [b] [(subtract chain a b status).1] (chain && status.c)
      (subtract chain a b status).2 := by
  have smallA := a.toNat_lt
  have smallB := b.toNat_lt
  have oneBorrow := (chain && status.c).toNat_le
  have oneC := (subtract chain a b status).2.c.toNat_le
  have result := toNat_subtract chain a b status
  obtain ⟨-, full⟩ := borrows_subtract chain a b status
  refine .single (.inr rfl) ?_ rfl ?_ rfl
  · rw [← Bool.toNat_eq_one] at full
    rw [result, total]
    omega
  · change byteBit (a &&& ~~~b &&& ~~~(subtract chain a b status).1 |||
      ~~~a &&& b &&& (subtract chain a b status).1) 7 = true ↔ _
    simp only [byteBit_or, byteBit_and, Bool.or_eq_true, Bool.and_eq_true,
      byteBit_not_iff _ (by decide : 7 < 8), byteBit_seven_iff, result, Fits, total, signedByte]
    split <;> split <;> omega

end

end Avr.Alu

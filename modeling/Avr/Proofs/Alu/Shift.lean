import Avr.Proofs.Alu.Chain

/-!
Contract: right shifts of numbers of several bytes, one instruction for each byte.

Owns:
- numbers with their most significant byte first;
- the three ways to shift a byte to the right, by the bit that comes in at the top;
- runs of such instructions from the most significant byte on, with anything in between that
  leaves the status register alone;
- the half of the number, and the bit that falls out of it.

One byte and the bit that falls out of it are together twice what was there before, with the bit
that came in on top. The same equation holds for a whole run, by induction from its end.
-/

namespace Avr.Alu

/-! ### Numbers from the most significant byte on -/

theorem value_append (low high : List UInt8) :
    value (low ++ high) = value low + 256 ^ low.length * value high := by
  induction low with
  | nil => simp [value]
  | cons byte rest inductionHypothesis =>
    rw [List.cons_append, value, value, inductionHypothesis, List.length_cons, Nat.pow_succ',
      Nat.mul_add, Nat.mul_assoc, Nat.add_assoc]

theorem value_reverse_cons (byte : UInt8) (rest : List UInt8) :
    value (byte :: rest).reverse = value rest.reverse + 256 ^ rest.length * byte.toNat := by
  rw [List.reverse_cons, value_append, List.length_reverse]
  rfl

/-- The sign of a number is the top bit of its most significant byte. -/
theorem signedValue_reverse_cons (byte : UInt8) (rest : List UInt8) :
    signedValue (byte :: rest).reverse =
      value (byte :: rest).reverse - (byteBit byte 7).toNat * 256 ^ (rest.length + 1) := by
  have small := value_lt rest.reverse
  rw [List.length_reverse] at small
  have half : 2 * value (byte :: rest).reverse < 256 ^ (rest.length + 1) ↔
      ¬ byteBit byte 7 = true := by
    rw [value_reverse_cons, Nat.pow_succ, byteBit_seven_iff]
    generalize 256 ^ rest.length = modulus at small ⊢
    constructor
    · intro below negative
      have most := Nat.mul_le_mul_left modulus negative
      omega
    · intro positive
      have least := Nat.mul_le_mul_left modulus (Nat.le_of_lt_succ (Nat.lt_of_not_le positive))
      omega
  rw [signedValue, List.length_reverse, List.length_cons]
  cases top : byteBit byte 7 with
  | true =>
    rw [if_neg fun below => half.mp below top, Bool.toNat_true, Int.natCast_one, Int.one_mul]
  | false =>
    rw [if_pos (half.mpr (Bool.not_eq_true _ ▸ top)), Bool.toNat_false, Int.natCast_zero,
      Int.zero_mul, Int.sub_zero]

/-! ### One byte -/

theorem toNat_shiftRight (a : UInt8) (top : Bool) (status : Status) :
    2 * (shiftRight a top status).1.toNat + (shiftRight a top status).2.c.toNat =
      256 * top.toNat + a.toNat := by
  have small := a.toNat_lt
  have incoming : (UInt8.ofNat top.toNat <<< 7).toNat = 2 ^ 7 * top.toNat := by
    cases top <;> rfl
  have rest : (a >>> 1).toNat = a.toNat / 2 := by
    rw [UInt8.toNat_shiftRight, UInt8.toNat_one, Nat.mod_eq_of_lt (by decide), Nat.shiftRight_one]
  have result : (shiftRight a top status).1.toNat = 2 ^ 7 * top.toNat + a.toNat / 2 := by
    rw [shiftRight, UInt8.toNat_or, Nat.or_comm, incoming, rest,
      Nat.two_pow_add_eq_or_of_lt (by omega)]
  have fallen : (shiftRight a top status).2.c.toNat = a.toNat % 2 :=
    Nat.toNat_testBit a.toNat 0 |>.trans (by rw [Nat.pow_zero, Nat.div_one])
  omega

/-- The bit that comes in is the sign of the result. -/
theorem sign_shiftRight (a : UInt8) (top : Bool) (status : Status) :
    byteBit (shiftRight a top status).1 7 = top := by
  have exact := toNat_shiftRight a top status
  have small := a.toNat_lt
  have carry := (shiftRight a top status).2.c.toNat_le
  rw [Bool.eq_iff_iff, byteBit_seven_iff]
  cases top with
  | false =>
    rw [Bool.toNat_false] at exact
    exact iff_of_false (by omega) Bool.false_ne_true
  | true =>
    rw [Bool.toNat_true] at exact
    exact iff_of_true (by omega) rfl

end Avr.Alu

namespace Avr.Machine

open Avr.Isa Avr.Alu

variable {World : Type} {env : Environment World}

/-! ### The three shifts -/

/-- What comes in at the top of a byte that is shifted to the right. -/
inductive Shift where
  /-- A zero. -/
  | logical
  /-- The sign. -/
  | arithmetic
  /-- The carry. -/
  | rotating
deriving DecidableEq, Repr

namespace Shift

def op : Shift → UnaryOp
  | logical => .lsr
  | arithmetic => .asr
  | rotating => .ror

def top (shift : Shift) (a : UInt8) (status : Status) : Bool :=
  match shift with
  | logical => false
  | arithmetic => byteBit a 7
  | rotating => status.c

theorem run (shift : Shift) (env : Environment World) (r : Reg) (m : Machine World) :
    (execute env (.unary shift.op r)).run m =
      (.ok 1, { m.withResult r (shiftRight (m.reg r) (shift.top (m.reg r) m.status) m.status) with
        pc := following m.pc (.unary shift.op r) }) := by
  cases shift <;> rfl

/-- The flags that one shift leaves, by the byte before and the byte after it. -/
structure Flags (before after : UInt8) (status : Status) : Prop where
  carry : status.c = byteBit before 0
  negative : status.n = byteBit after 7
  zero : status.z = true ↔ after = 0
  overflow : status.v = (status.n ^^ status.c)
  sign : status.s = (status.n ^^ status.v)

end Shift

/-! ### Runs over the bytes -/

/-- Shifts run over bytes, the most significant one first; each is given as it was before and as it
is after its shift. What happens between the shifts may be anything that leaves the status register
alone. -/
inductive Shifts (env : Environment World) :
    Shift → Machine World → List (UInt8 × UInt8) → Machine World → Prop
  | done {shift : Shift} {m last : Machine World} (between : last.status = m.status) :
      Shifts env shift m [] last
  | byte {shift : Shift} {m before after last : Machine World} {r : Reg} {cycles : Nat}
      {bytes : List (UInt8 × UInt8)}
      (between : before.status = m.status)
      (registers : registerCount ≤ before.data.bytes.size)
      (ran : (execute env (.unary shift.op r)).run before = (.ok cycles, after))
      (others : Shifts env .rotating after bytes last) :
      Shifts env shift m ((before.reg r, after.reg r) :: bytes) last

/-- The bytes before and after a run, the least significant one first. -/
def befores (bytes : List (UInt8 × UInt8)) : List UInt8 := (bytes.map Prod.fst).reverse

def afters (bytes : List (UInt8 × UInt8)) : List UInt8 := (bytes.map Prod.snd).reverse

/-- What a shift leaves in its register and in the flags. -/
theorem Shift.effect {shift : Shift} {before after : Machine World} {r : Reg} {cycles : Nat}
    (ran : (execute env (.unary shift.op r)).run before = (.ok cycles, after))
    (registers : registerCount ≤ before.data.bytes.size) :
    (after.reg r, after.status) =
      shiftRight (before.reg r) (shift.top (before.reg r) before.status) before.status := by
  rw [shift.run env] at ran
  obtain rfl := congrArg Prod.snd ran
  exact Prod.ext (reg_setReg before r _ registers) rfl

/-- The bit that comes in at the top of a run. -/
def Shift.incoming (shift : Shift) (status : Status) : List (UInt8 × UInt8) → Bool
  | [] => status.c
  | (byte, _) :: _ => shift.top byte status

theorem Shift.incoming_rotating (status : Status) (bytes : List (UInt8 × UInt8)) :
    Shift.rotating.incoming status bytes = status.c := by
  cases bytes <;> rfl

/-- Twice the number afterwards, with the bit that fell out, is the number before with the incoming
bit on top. By induction on the run: the bit that falls out of a byte is the one that comes in at
the top of the rest. -/
theorem Shifts.exact {shift : Shift} {m last : Machine World} {bytes : List (UInt8 × UInt8)}
    (run : Shifts env shift m bytes last) :
    2 * value (afters bytes) + last.status.c.toNat =
      256 ^ bytes.length * (shift.incoming m.status bytes).toNat + value (befores bytes) := by
  induction run with
  | @done shift m last between =>
    rw [between]
    simp only [afters, befores, Shift.incoming, List.map_nil, List.reverse_nil, value,
      List.length_nil]
    omega
  | @byte shift m before after last r cycles bytes between registers ran others
      inductionHypothesis =>
    have first := toNat_shiftRight (before.reg r)
      (shift.top (before.reg r) before.status) before.status
    rw [← shift.effect ran registers, between] at first
    rw [Shift.incoming_rotating] at inductionHypothesis
    simp only [afters, befores, List.map_cons, value_reverse_cons, List.length_map,
      Shift.incoming, List.length_cons, Nat.pow_succ] at inductionHypothesis ⊢
    generalize 256 ^ bytes.length = modulus at inductionHypothesis ⊢
    calc
      2 * (value (bytes.map Prod.snd).reverse + modulus * (after.reg r).toNat) +
            last.status.c.toNat
        = (2 * value (bytes.map Prod.snd).reverse + last.status.c.toNat) +
            modulus * (2 * (after.reg r).toNat) := by
          rw [Nat.mul_add, Nat.mul_left_comm]
          omega
      _ = value (bytes.map Prod.fst).reverse +
            modulus * (2 * (after.reg r).toNat + after.status.c.toNat) := by
          rw [inductionHypothesis, Nat.mul_add modulus]
          omega
      _ = modulus * 256 * (shift.top (before.reg r) m.status).toNat +
            (value (bytes.map Prod.fst).reverse + modulus * (before.reg r).toNat) := by
          rw [first, Nat.mul_add modulus, Nat.mul_assoc]
          omega

/-- The sign afterwards is the incoming bit. -/
theorem Shifts.sign {shift : Shift} {m last : Machine World} {bytes : List (UInt8 × UInt8)}
    (run : Shifts env shift m bytes last) (more : bytes ≠ []) :
    signedValue (afters bytes) =
      value (afters bytes) - (shift.incoming m.status bytes).toNat * 256 ^ bytes.length := by
  cases run with
  | done => exact absurd rfl more
  | @byte _ _ before after _ r _ bytes between registers ran others =>
    have top := sign_shiftRight (before.reg r)
      (shift.top (before.reg r) before.status) before.status
    rw [← shift.effect ran registers, between] at top
    simp only [afters, List.map_cons, signedValue_reverse_cons, List.length_map, List.length_cons,
      Shift.incoming]
    rw [top]

/-! ### Halves -/

/-- A run of shifts halves the number and leaves the bit that falls out in the carry. -/
structure Halves (shift : Shift) (before : Status) (bytes : List (UInt8 × UInt8))
    (after : Status) : Prop where
  carry : after.c.toNat = value (befores bytes) % 2
  logical : shift = .logical → value (afters bytes) = value (befores bytes) / 2
  arithmetic : shift = .arithmetic →
    signedValue (afters bytes) = signedValue (befores bytes) / 2
  /-- The carry before is the top bit afterwards. -/
  rotating : shift = .rotating →
    value (afters bytes) = value (befores bytes) / 2 + 256 ^ bytes.length / 2 * before.c.toNat

theorem Shifts.halves {shift : Shift} {m last : Machine World} {bytes : List (UInt8 × UInt8)}
    (run : Shifts env shift m bytes last) (more : bytes ≠ []) :
    Halves shift m.status bytes last.status := by
  have exact := run.exact
  have sign := run.sign more
  have bit := last.status.c.toNat_le
  obtain ⟨⟨byte, shifted⟩, others, rfl⟩ := List.exists_cons_of_ne_nil more
  have signBefore : signedValue (befores ((byte, shifted) :: others)) =
      value (befores ((byte, shifted) :: others)) -
        (byteBit byte 7).toNat * 256 ^ (others.length + 1) := by
    simp only [befores, List.map_cons, signedValue_reverse_cons, List.length_map]
  obtain ⟨half, even⟩ : ∃ half, 256 ^ (others.length + 1) = 2 * half :=
    ⟨128 * 256 ^ others.length, by rw [Nat.pow_succ]; omega⟩
  have evenInt : (256 : Int) ^ (others.length + 1) = 2 * half := by
    rw [← natCast_modulus, even]
    rfl
  rw [List.length_cons, even] at exact
  rw [List.length_cons, evenInt] at sign
  rw [evenInt] at signBefore
  refine ⟨?_, ?_, ?_, ?_⟩
  · rw [Nat.mul_assoc] at exact
    omega
  · rintro rfl
    rw [Shift.incoming, Shift.top, Bool.toNat_false] at exact
    omega
  · rintro rfl
    rw [Shift.incoming, Shift.top] at exact sign
    rw [sign, signBefore]
    generalize byteBit byte 7 = top at exact ⊢
    cases top with
    | false =>
      rw [Bool.toNat_false] at exact ⊢
      omega
    | true =>
      rw [Bool.toNat_true] at exact ⊢
      omega
  · rintro rfl
    rw [Shift.incoming, Shift.top] at exact
    rw [List.length_cons, even, Nat.mul_div_cancel_left half (by decide)]
    rw [Nat.mul_assoc] at exact
    omega

/-! ### Shifts of any length -/

/-- One shift never fails, and its overflow tells the two bits apart that it moved. -/
theorem Shift.flags (shift : Shift) (env : Environment World) (r : Reg) (m : Machine World)
    (registers : registerCount ≤ m.data.bytes.size) :
    ∃ after, (execute env (.unary shift.op r)).run m = (.ok 1, after) ∧
      Shift.Flags (m.reg r) (after.reg r) after.status := by
  obtain ⟨after, ran⟩ : ∃ after, (execute env (.unary shift.op r)).run m = (.ok 1, after) :=
    ⟨_, shift.run env r m⟩
  have effect := shift.effect ran registers
  have register : after.reg r = _ := congrArg Prod.fst effect
  have status : after.status = _ := congrArg Prod.snd effect
  refine ⟨after, ran, ?_⟩
  rw [register, status]
  exact ⟨rfl, rfl, decide_eq_true_iff, rfl, rfl⟩

theorem multibyte_right_shift_halves (env : Environment World) :
    (∀ (shift : Shift) (r : Reg) (m : Machine World), registerCount ≤ m.data.bytes.size →
      ∃ after, (execute env (.unary shift.op r)).run m = (.ok 1, after) ∧
        Shift.Flags (m.reg r) (after.reg r) after.status) ∧
    ∀ {shift : Shift} {m last : Machine World} {bytes : List (UInt8 × UInt8)},
      Shifts env shift m bytes last → bytes ≠ [] → Halves shift m.status bytes last.status :=
  ⟨fun shift r m registers => shift.flags env r m registers, Shifts.halves⟩

/-- The half of -255 is -128, with a constant loaded between the two bytes. -/
theorem multibyte_right_shift_halves_negative :
    let m : Machine Unit := (new smallPart ⟨.known 0, false, false⟩ ()).setPair 0 0xFF01
    let first := ((execute silence (.unary .asr 1)).run m).2
    let loaded := ((execute silence (.immediate .ldi 16 7)).run first).2
    let second := ((execute silence (.unary .ror 0)).run loaded).2
    let bytes : List (UInt8 × UInt8) := [(0xFF, 0xFF), (0x01, 0x80)]
    registerCount ≤ m.data.bytes.size ∧ Shifts silence .arithmetic m bytes second ∧
      Halves .arithmetic m.status bytes second.status := by
  intro m first loaded second bytes
  have registers : registerCount ≤ m.data.bytes.size := by decide +kernel
  have met : bytes = [(m.reg 1, first.reg 1), (loaded.reg 0, second.reg 0)] := by
    decide +kernel
  have run : Shifts silence .arithmetic m bytes second := by
    rw [met]
    exact .byte rfl registers rfl (.byte rfl (by decide +kernel) rfl (.done rfl))
  exact ⟨registers, run, (multibyte_right_shift_halves silence).2 run (List.cons_ne_nil _ _)⟩

end Avr.Machine

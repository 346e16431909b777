import Avr.Isa.Assembly
import Avr.Isa.Decoding
import Avr.Proofs.Text.Numerals
import Mathlib.Data.List.Nodup

/-!
Contract: no two instructions have the same text.

Owns:
- the words of a text: the mnemonic, then the operands, each but the last with its comma;
- the forms that mnemonics name, and that no two forms share a mnemonic;
- the instruction that a form and its operands determine.

A text falls apart at its blanks, since neither a mnemonic nor an operand has one in it.
-/

namespace Avr.Isa

open Avr.Text

/-! ## Words -/

/-- Operands as they stand between blanks: each but the last is followed by a comma. -/
def separated : List String → List String
  | [] => []
  | operand :: rest => (if rest = [] then operand else operand ++ ",") :: separated rest

theorem separated_eq_nil {operands : List String} : separated operands = [] ↔ operands = [] := by
  cases operands <;> simp [separated]

theorem intercalate_eq_separated (operands : List String) :
    String.intercalate ", " operands = String.intercalate " " (separated operands) := by
  induction operands with
  | nil => rfl
  | cons operand rest inductionHypothesis =>
      by_cases last : rest = []
      · simp [separated, last]
      · have isSeparated : separated rest ≠ [] := mt separated_eq_nil.mp last
        have blank : ", " = "," ++ " " := rfl
        rw [separated, if_neg last, String.intercalate_cons_of_ne_nil last, inductionHypothesis,
          String.intercalate_cons_of_ne_nil isSeparated, blank]
        simp only [String.append_assoc]

theorem separated_injective {left right : List String}
    (same : separated left = separated right) : left = right := by
  induction left generalizing right with
  | nil =>
      cases right with
      | nil => rfl
      | cons => simp [separated] at same
  | cons operand rest inductionHypothesis =>
      cases right with
      | nil => simp [separated] at same
      | cons operand' rest' =>
          obtain ⟨sameOperand, sameRest⟩ := List.cons.inj same
          cases inductionHypothesis sameRest
          by_cases last : rest = []
          · simpa [last] using sameOperand
          · simpa [last] using sameOperand

/-- A text without blanks. -/
def IsWord (text : String) : Prop :=
  ' ' ∉ text.toList

instance IsWord.decidable (text : String) : Decidable (IsWord text) :=
  inferInstanceAs (Decidable (' ' ∉ text.toList))

theorem isWord_of_isAlphanum {text : String}
    (alphanumeric : ∀ c ∈ text.toList, c.isAlphanum = true) : IsWord text := fun blank =>
  absurd (alphanumeric ' ' blank) (by decide)

@[simp] theorem isWord_append {left right : String} :
    IsWord (left ++ right) ↔ IsWord left ∧ IsWord right := by
  simp [IsWord]

@[simp] theorem isWord_decimal (value : Nat) : IsWord (decimal value) := by
  apply isWord_of_isAlphanum
  rw [toList_decimal]
  exact isAlphanum_digits .lower value (by decide) (by decide)

@[simp] theorem isWord_hexUpper (width value : Nat) : IsWord (hexUpper width value) := by
  apply isWord_of_isAlphanum
  rw [toList_hexUpper]
  exact isAlphanum_padded width (isAlphanum_digits .upper value (by decide) (by decide))

@[simp] theorem isWord_signed (value : Int) : IsWord (signed value) := by
  cases value <;> simp [signed] <;> decide

theorem isWord_separated {operands : List String} (words : ∀ operand ∈ operands, IsWord operand) :
    ∀ word ∈ separated operands, IsWord word := by
  induction operands with
  | nil => simp [separated]
  | cons operand rest inductionHypothesis =>
      intro word shown
      obtain ⟨isFirst, isRest⟩ := List.forall_mem_cons.mp words
      rcases List.mem_cons.mp shown with first | later
      · subst first
        split
        · exact isFirst
        · exact isWord_append.mpr ⟨isFirst, by decide⟩
      · exact inductionHypothesis isRest word later

@[simp] theorem isWord_register (r : Reg) : IsWord r.text :=
  isWord_append.mpr ⟨by decide, isWord_decimal r.val⟩

@[simp] theorem isWord_pointerOperand (pointer : Pointer) (mode : PointerMode) :
    IsWord (pointerOperand pointer mode) := by
  have named : IsWord pointer.text := by cases pointer <;> decide
  have plus : IsWord "+" := by decide
  have minus : IsWord "-" := by decide
  cases mode with
  | displaced offset =>
      simp only [pointerOperand]
      split <;> simp [named, plus]
  | postIncrement => simp [pointerOperand, named, plus]
  | preDecrement => simp [pointerOperand, named, minus]

/-! ## Forms -/

/-- What a mnemonic names: a shape of operands and the operation on them. -/
inductive Form where
  | binary (op : BinaryOp)
  | immediate (op : ImmediateOp)
  | unary (op : UnaryOp)
  | flag (set : Bool)
  | registerBit (op : RegisterBitOp)
  | branch (onSet : Bool)
  | relative (call : Bool)
  | absolute (call : Bool)
  | input
  | output
  | ioBit (op : IoBitOp)
  | load (displaced : Bool)
  | store (displaced : Bool)
  | loadDirect
  | storeDirect
  | loadProgram (extended : Bool)
  | control (op : ControlOp)
  | undefined
deriving DecidableEq, Repr

namespace Form

def mnemonic : Form → String
  | binary op => op.mnemonic
  | immediate op => op.mnemonic
  | unary op => op.mnemonic
  | flag set => if set then "BSET" else "BCLR"
  | registerBit op => op.mnemonic
  | branch onSet => if onSet then "BRBS" else "BRBC"
  | relative call => if call then "RCALL" else "RJMP"
  | absolute call => if call then "CALL" else "JMP"
  | input => "IN"
  | output => "OUT"
  | ioBit op => op.mnemonic
  | load displaced => if displaced then "LDD" else "LD"
  | store displaced => if displaced then "STD" else "ST"
  | loadDirect => "LDS"
  | storeDirect => "STS"
  | loadProgram extended => if extended then "ELPM" else "LPM"
  | control op => op.mnemonic
  | undefined => ".word"

def all : List Form :=
  BinaryOp.all.map binary ++ ImmediateOp.all.map immediate ++ UnaryOp.all.map unary ++
    RegisterBitOp.all.map registerBit ++ IoBitOp.all.map ioBit ++ ControlOp.all.map control ++
    [true, false].flatMap
      (fun choice => [flag choice, branch choice, relative choice, absolute choice, load choice,
        store choice, loadProgram choice]) ++
    [input, output, loadDirect, storeDirect, undefined]

theorem mem_all (form : Form) : form ∈ all := by
  cases form with
  | binary op => cases op <;> decide
  | immediate op => cases op <;> decide
  | unary op => cases op <;> decide
  | registerBit op => cases op <;> decide
  | ioBit op => cases op <;> decide
  | control op => cases op <;> decide
  | input | output | loadDirect | storeDirect | undefined => decide
  | _ choice => cases choice <;> decide

theorem mnemonic_injective {left right : Form} (same : left.mnemonic = right.mnemonic) :
    left = right := by
  have distinct : (all.map mnemonic).Nodup := by decide +kernel
  exact List.inj_on_of_nodup_map distinct (mem_all left) (mem_all right) same

theorem isWord_mnemonic (form : Form) : IsWord form.mnemonic := by
  have words : ∀ form ∈ all, IsWord form.mnemonic := by decide +kernel
  exact words form (mem_all form)

end Form

/-! ## Operands -/

@[simp] theorem Reg.text_inj {left right : Reg} : left.text = right.text ↔ left = right := by
  simp [Reg.text, Fin.ext_iff]

/-- The letter of a pointer. -/
def Pointer.letter : Pointer → Char
  | .x => 'X'
  | .y => 'Y'
  | .z => 'Z'

@[simp] theorem Pointer.toList_text (pointer : Pointer) :
    pointer.text.toList = [pointer.letter] := by
  cases pointer <;> rfl

theorem Pointer.letter_inj {left right : Pointer} : left.letter = right.letter ↔ left = right := by
  cases left <;> cases right <;> decide

@[simp] theorem Pointer.letter_ne_minus (pointer : Pointer) : pointer.letter ≠ '-' := by
  cases pointer <;> decide

/-- What follows the letter of a pointer with a displacement. -/
def displacement (offset : UInt8) : List Char :=
  if offset = 0 then [] else '+' :: digits .lower 10 offset.toNat

/-- A displacement that is shown has digits, which the mark of an increment lacks. -/
theorem displacement_ne_plus (offset : UInt8) : displacement offset ≠ ['+'] := by
  unfold displacement
  split
  · simp
  · simpa using digits_ne_nil .lower offset.toNat

theorem displacement_inj {left right : UInt8} :
    displacement left = displacement right ↔ left = right := by
  constructor
  · intro same
    unfold displacement at same
    split at same <;> split at same
    · simp_all
    · simp at same
    · simp at same
    · have sameDecimal : decimal left.toNat = decimal right.toNat :=
        congrArg String.ofList (List.cons.inj same).2
      exact UInt8.toNat_inj.mp (decimal_inj.mp sameDecimal)
  · exact congrArg displacement

theorem toList_pointerOperand (pointer : Pointer) (mode : PointerMode) :
    (pointerOperand pointer mode).toList =
      match mode with
      | .displaced offset => pointer.letter :: displacement offset
      | .postIncrement => [pointer.letter, '+']
      | .preDecrement => ['-', pointer.letter] := by
  cases mode with
  | displaced offset =>
      by_cases zero : offset = 0 <;>
        simp [pointerOperand, displacement, PointerMode.isDisplaced, zero]
  | postIncrement => simp [pointerOperand]
  | preDecrement => simp [pointerOperand]

@[simp] theorem pointerOperand_inj {pointer pointer' : Pointer} {mode mode' : PointerMode} :
    pointerOperand pointer mode = pointerOperand pointer' mode' ↔
      pointer = pointer' ∧ mode = mode' := by
  constructor
  · intro same
    have sameText := congrArg String.toList same
    rw [toList_pointerOperand, toList_pointerOperand] at sameText
    cases mode <;> cases mode' <;>
      simp_all [Pointer.letter_inj, displacement_inj, displacement_ne_plus,
        (displacement_ne_plus _).symm, (Pointer.letter_ne_minus _).symm]
  · rintro ⟨rfl, rfl⟩
    rfl

namespace Instr

theorem isWord_operands (i : Instr) : ∀ operand ∈ i.operands, IsWord operand := by
  have dot : IsWord "." := by decide
  have base : IsWord "0x" := by decide
  cases i with
  | loadProgram extended rd increment =>
      have shown : IsWord (if increment then "Z+" else "Z") := by cases increment <;> decide
      simp only [operands]
      split <;> simp [shown]
  | _ => simp [operands, dot, base]

def form : Instr → Form
  | binary op .. => .binary op
  | immediate op .. => .immediate op
  | unary op _ => .unary op
  | flag set _ => .flag set
  | registerBit op .. => .registerBit op
  | branch onSet .. => .branch onSet
  | relative call _ => .relative call
  | absolute call _ => .absolute call
  | input .. => .input
  | output .. => .output
  | ioBit op .. => .ioBit op
  | load _ _ mode => .load mode.isDisplaced
  | store _ mode _ => .store mode.isDisplaced
  | loadDirect .. => .loadDirect
  | storeDirect .. => .storeDirect
  | loadProgram extended .. => .loadProgram extended
  | control op => .control op
  | undefined _ => .undefined

theorem mnemonic_form (i : Instr) : i.form.mnemonic = i.mnemonic := by
  cases i <;> rfl

/-- Operands that are left out stand for one register and no increment. -/
theorem loadProgram_operands_inj {extended : Bool} {rd rd' : Reg} {increment increment' : Bool}
    (same : (loadProgram extended rd increment).operands =
      (loadProgram extended rd' increment').operands) :
    loadProgram extended rd increment = loadProgram extended rd' increment' := by
  by_cases bare : rd = 0 ∧ increment = false <;> by_cases bare' : rd' = 0 ∧ increment' = false
  · rw [bare.1, bare.2, bare'.1, bare'.2]
  · simp [operands, bare, bare'] at same
  · simp [operands, bare, bare'] at same
  · obtain ⟨rfl, sameIncrement⟩ : rd = rd' ∧
        (if increment then "Z+" else "Z") = if increment' then "Z+" else "Z" := by
      simpa [operands, bare, bare'] using same
    cases increment <;> cases increment' <;> simp_all

/-- A mnemonic and its operands determine the instruction. -/
theorem eq_of_form_of_operands {i j : Instr} (sameForm : i.form = j.form)
    (sameOperands : i.operands = j.operands) : i = j := by
  cases i <;> cases j <;> simp only [form, reduceCtorEq] at sameForm
  case loadProgram.loadProgram extended rd increment extended' rd' increment' =>
    cases sameForm
    rw [loadProgram_operands_inj sameOperands]
  -- offsets and targets are shown in bytes and counted in words
  case branch.branch onSet s k onSet' s' k' =>
    obtain ⟨sameFlag, sameOffset⟩ : s = s' ∧ k * 2 = k' * 2 := by
      simpa [operands, UInt8.toNat_inj] using sameOperands
    rw [Form.branch.inj sameForm, sameFlag, Int.eq_of_mul_eq_mul_right (by decide) sameOffset]
  case relative.relative call k call' k' =>
    have sameOffset : k * 2 = k' * 2 := by simpa [operands] using sameOperands
    rw [Form.relative.inj sameForm, Int.eq_of_mul_eq_mul_right (by decide) sameOffset]
  case absolute.absolute call k call' k' =>
    have sameTarget : k * 2 = k' * 2 := by simpa [operands] using sameOperands
    rw [Form.absolute.inj sameForm, Nat.eq_of_mul_eq_mul_right (by decide) sameTarget]
  all_goals simp_all [operands, UInt8.toNat_inj, UInt16.toNat_inj]

/-- The words of a text are its mnemonic and its operands. -/
theorem splitOn_text (i : Instr) :
    i.text.toList.splitOn ' ' = (i.mnemonic :: separated i.operands).map String.toList := by
  have joined : i.text = String.intercalate " " (i.mnemonic :: separated i.operands) := by
    by_cases bare : i.operands = []
    · simp [text, bare, separated]
    · rw [String.intercalate_cons_of_ne_nil (mt separated_eq_nil.mp bare),
        ← intercalate_eq_separated]
      simp [text]
  have words : ∀ word ∈ i.mnemonic :: separated i.operands, IsWord word :=
    List.forall_mem_cons.mpr
      ⟨i.mnemonic_form ▸ i.form.isWord_mnemonic, isWord_separated i.isWord_operands⟩
  rw [joined, String.toList_intercalate]
  exact List.splitOn_intercalate ' ' (List.forall_mem_map.mpr words) (by simp)

theorem text_injective {i j : Instr} (same : i.text = j.text) : i = j := by
  have sameWords : i.mnemonic :: separated i.operands = j.mnemonic :: separated j.operands := by
    apply List.map_injective_iff.mpr fun _ _ => String.toList_injective
    rw [← splitOn_text, ← splitOn_text, same]
  obtain ⟨sameMnemonic, sameOperands⟩ := List.cons.inj sameWords
  apply eq_of_form_of_operands
  · apply Form.mnemonic_injective
    rw [mnemonic_form, mnemonic_form, sameMnemonic]
  · exact separated_injective sameOperands

/-- Instructions that decoding produces have the same text exactly when they are the same
instruction. -/
theorem disassembly_is_unambiguous (word next word' next' : UInt16) :
    (decode word next).text = (decode word' next').text ↔ decode word next = decode word' next' :=
  ⟨text_injective, congrArg text⟩

/-- Words may still share an instruction: `LPM` has an encoding of its own without operands. -/
example : decode 0x9004 0 = decode 0x95C8 0 ∧ (decode 0x9004 0).text = "LPM" := by
  decide

end Instr

end Avr.Isa

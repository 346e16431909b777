import Avr.Text.Digits

/-!
Contract: numerals are read back from their digits.

Owns:
- the value of a digit and of a numeral, leading zeros included;
- no two numbers share a spelling, decimal, signed or hexadecimal;
- the characters of a numeral.

Does not own: what a numeral stands for, and the text around it.
-/

namespace Avr.Text

/-- Value of a digit of either letter case; what a character that is no digit counts as does not
matter. -/
def digitValue (c : Char) : Nat :=
  if c ≤ '9' then c.toNat - 48 else if c ≤ 'F' then c.toNat - 55 else c.toNat - 87

/-- Value of a numeral, most significant digit first. -/
def numeralValue (base : Nat) (numeral : List Char) : Nat :=
  numeral.foldl (fun value c => base * value + digitValue c) 0

theorem digitValue_digit {value : Nat} (letters : LetterCase) (inRange : value < 16) :
    digitValue (digit letters value) = value := by
  cases letters <;> decide +revert

theorem isAlphanum_digit {value : Nat} (letters : LetterCase) (inRange : value < 16) :
    (digit letters value).isAlphanum = true := by
  cases letters <;> decide +revert

theorem numeralValue_concat (base : Nat) (numeral : List Char) (c : Char) :
    numeralValue base (numeral ++ [c]) = base * numeralValue base numeral + digitValue c := by
  simp [numeralValue]

section Digits

variable {base : Nat} (letters : LetterCase) (value : Nat)

theorem numeralValue_digits (atLeastTwo : 2 ≤ base) (atMostSixteen : base ≤ 16) :
    numeralValue base (digits letters base value) = value := by
  fun_induction digits letters base value with
  | case1 value small =>
      have inRange : value < 16 := by omega
      simp [numeralValue, digitValue_digit letters inRange]
  | case2 value large inductionHypothesis =>
      have inRange : value % base < 16 :=
        Nat.lt_of_lt_of_le (Nat.mod_lt value (by omega)) atMostSixteen
      rw [numeralValue_concat, inductionHypothesis, digitValue_digit letters inRange]
      exact Nat.div_add_mod value base

theorem isAlphanum_digits (atLeastTwo : 2 ≤ base) (atMostSixteen : base ≤ 16) :
    ∀ c ∈ digits letters base value, c.isAlphanum = true := by
  fun_induction digits letters base value with
  | case1 value small =>
      have inRange : value < 16 := by omega
      simpa using isAlphanum_digit letters inRange
  | case2 value large inductionHypothesis =>
      have inRange : value % base < 16 :=
        Nat.lt_of_lt_of_le (Nat.mod_lt value (by omega)) atMostSixteen
      intro c shown
      rcases List.mem_append.mp shown with before | last
      · exact inductionHypothesis c before
      · rw [List.mem_singleton.mp last]
        exact isAlphanum_digit letters inRange

theorem digits_ne_nil : digits letters base value ≠ [] := by
  unfold digits
  split <;> simp

end Digits

/-- Leading zeros add nothing. -/
theorem numeralValue_padded (base width : Nat) (numeral : List Char) :
    numeralValue base (padded width numeral) = numeralValue base numeral := by
  have zeros (count : Nat) :
      (List.replicate count '0').foldl (fun value c => base * value + digitValue c) 0 = 0 := by
    induction count with
    | zero => rfl
    | succ count inductionHypothesis =>
        rw [List.replicate_succ, List.foldl_cons]
        exact inductionHypothesis
  rw [padded, numeralValue, List.foldl_append, zeros]
  rfl

theorem isAlphanum_padded {numeral : List Char} (width : Nat)
    (alphanumeric : ∀ c ∈ numeral, c.isAlphanum = true) :
    ∀ c ∈ padded width numeral, c.isAlphanum = true := by
  intro c shown
  rcases List.mem_append.mp shown with zero | digit
  · rw [List.eq_of_mem_replicate zero]
    decide
  · exact alphanumeric c digit

/-! ## Spellings -/

@[simp] theorem toList_decimal (value : Nat) :
    (decimal value).toList = digits .lower 10 value :=
  String.toList_ofList

@[simp] theorem toList_hexUpper (width value : Nat) :
    (hexUpper width value).toList = padded width (digits .upper 16 value) :=
  String.toList_ofList

@[simp] theorem decimal_inj {left right : Nat} : decimal left = decimal right ↔ left = right := by
  constructor
  · intro same
    have sameValue := congrArg (fun text => numeralValue 10 text.toList) same
    simpa [numeralValue_digits] using sameValue
  · exact congrArg decimal

@[simp] theorem hexUpper_inj {width left right : Nat} :
    hexUpper width left = hexUpper width right ↔ left = right := by
  constructor
  · intro same
    have sameValue := congrArg (fun text => numeralValue 16 text.toList) same
    simpa [numeralValue_padded, numeralValue_digits] using sameValue
  · exact congrArg (hexUpper width)

/-- The sign tells the two halves apart, and each half is spelled by its magnitude. -/
@[simp] theorem signed_inj {left right : Int} : signed left = signed right ↔ left = right := by
  constructor
  · intro same
    have sameText := congrArg String.toList same
    cases left with
    | ofNat left =>
        cases right with
        | ofNat right =>
            have sameDecimal : decimal left = decimal right := by
              simpa [signed] using same
            rw [decimal_inj.mp sameDecimal]
        | negSucc right => simp [signed] at sameText
    | negSucc left =>
        cases right with
        | ofNat right => simp [signed] at sameText
        | negSucc right =>
            have sameDecimal : decimal (left + 1) = decimal (right + 1) := by
              simpa [signed] using same
            rw [Nat.succ.inj (decimal_inj.mp sameDecimal)]
  · exact congrArg signed

end Avr.Text

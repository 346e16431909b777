/-!
Contract: numerals as text.

Owns:
- the digits of a natural number in a base between 2 and 16;
- the hexadecimal and signed decimal spellings used by every message and listing.

Does not own: which spelling a message uses.
-/

namespace Avr.Text

/-- Spelling of the digits above nine. -/
inductive LetterCase where
  | lower
  | upper
deriving DecidableEq, Repr

def digit (letters : LetterCase) (value : Nat) : Char :=
  if value < 10 then
    Char.ofNat (48 + value)
  else
    match letters with
    | .lower => Char.ofNat (87 + value)
    | .upper => Char.ofNat (55 + value)

/-- Digits of `value` in `base`, most significant first, without leading zeros. -/
def digits (letters : LetterCase) (base value : Nat) : List Char :=
  if value < base ∨ base < 2 then
    [digit letters value]
  else
    digits letters base (value / base) ++ [digit letters (value % base)]
termination_by value
decreasing_by
  exact Nat.div_lt_self (by omega) (by omega)

def padded (width : Nat) (text : List Char) : List Char :=
  List.replicate (width - text.length) '0' ++ text

def decimal (value : Nat) : String :=
  String.ofList (digits .lower 10 value)

/-- Decimal spelling of an integer, with a sign only when it is negative. -/
def integer : Int → String
  | .ofNat value => decimal value
  | .negSucc value => "-" ++ decimal (value + 1)

/-- Decimal spelling of an integer that always carries its sign. -/
def signed : Int → String
  | .ofNat value => "+" ++ decimal value
  | .negSucc value => "-" ++ decimal (value + 1)

/-- Lower-case hexadecimal digits, at least `width` of them. -/
def hex (width value : Nat) : String :=
  String.ofList (padded width (digits .lower 16 value))

/-- Upper-case hexadecimal digits, at least `width` of them. -/
def hexUpper (width value : Nat) : String :=
  String.ofList (padded width (digits .upper 16 value))

/-- Lower-case hexadecimal with its base mark, at least `width` digits. -/
def hexMarked (width value : Nat) : String :=
  "0x" ++ hex width value

/-- Bytes as pairs of lower-case hexadecimal digits. -/
def hexBytes (bytes : List UInt8) : String :=
  String.join (bytes.map fun byte => hex 2 byte.toNat)

end Avr.Text

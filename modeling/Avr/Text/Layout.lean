import Avr.Text.Digits
import Avr.Text.Invisible

/-!
Contract: the one-line layout in which the parts of a machine describe themselves.

Owns:
- quoted strings;
- lists, tuples, optional values and records with named fields.

Does not own: the fields of any description.
-/

namespace Avr.Text

/-- Escaped spelling of one character inside quotes.

A character without a short escape and without a shape of its own is written by its code point;
every other character stands for itself. -/
def escaped (c : Char) : String :=
  if c = '"' then "\\\""
  else if c = '\\' then "\\\\"
  else if c = '\n' then "\\n"
  else if c = '\r' then "\\r"
  else if c = '\t' then "\\t"
  else if c.toNat = 0 then "\\0"
  else if isInvisible c then
    "\\u\x7b" ++ hex 1 c.toNat ++ "\x7d"
  else
    String.singleton c

def quoted (text : String) : String :=
  "\"" ++ String.join (text.toList.map escaped) ++ "\""

def separated (items : List String) : String :=
  String.intercalate ", " items

def bracketed (items : List String) : String :=
  "[" ++ separated items ++ "]"

def pair (first second : String) : String :=
  "(" ++ first ++ ", " ++ second ++ ")"

def truth (value : Bool) : String :=
  if value then "true" else "false"

def applied (name value : String) : String :=
  name ++ "(" ++ value ++ ")"

def optional : Option String → String
  | none => "None"
  | some value => applied "Some" value

private def fieldTexts (fields : List (String × String)) : List String :=
  fields.map fun (name, value) => name ++ ": " ++ value

/-- A record all of whose fields are shown. -/
def record (name : String) (fields : List (String × String)) : String :=
  name ++ " \x7b " ++ separated (fieldTexts fields) ++ " \x7d"

/-- A record that says it has more fields than it shows. -/
def openRecord (name : String) (fields : List (String × String)) : String :=
  name ++ " \x7b " ++ separated (fieldTexts fields ++ [".."]) ++ " \x7d"

end Avr.Text

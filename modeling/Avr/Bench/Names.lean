/-!
Contract: values that are given by name.

Owns:
- look-up, replacement and removal.

A name has at most one value; giving it another replaces the one before.
-/

namespace Avr.Bench

structure Names (α : Type) where
  entries : List (String × α)

namespace Names

variable {α : Type}

def empty : Names α := ⟨[]⟩

def get? (names : Names α) (name : String) : Option α :=
  (names.entries.find? fun entry => entry.1 = name).map Prod.snd

def erase (names : Names α) (name : String) : Names α :=
  ⟨names.entries.filter fun entry => entry.1 ≠ name⟩

def put (names : Names α) (name : String) (value : α) : Names α :=
  ⟨(name, value) :: (names.erase name).entries⟩

@[simp] theorem get?_put_self (names : Names α) (name : String) (value : α) :
    (names.put name value).get? name = some value := by
  simp [put, get?]

@[simp] theorem get?_erase_self (names : Names α) (name : String) :
    (names.erase name).get? name = none := by
  simp [erase, get?]

end Names

end Avr.Bench

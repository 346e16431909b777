import Avr.Proofs.Attachment.Registers

/-!
Contract: the wrappers of IO registers are never nested.

Owns:
- registers under any number of wrappers, with the operations that see the outermost one alone;
- that the registers of a machine are such registers, to which the same operations do the same.

A register of a machine has one wrapper at most by its type, so that nothing is lost by the type has
to be said of registers that could have more.
-/

namespace Avr.Io

open Avr.Machine

/-- A register under any number of wrappers. -/
inductive Layered where
  | bare (kind : Kind)
  | wrapped (inner : Layered) (watches : HandleList)
deriving DecidableEq, Repr

namespace Layered

def depth : Layered → Nat
  | bare _ => 0
  | wrapped inner _ => inner.depth + 1

/-- What is under the outermost wrapper. -/
def inner : Layered → Layered
  | bare kind => bare kind
  | wrapped inner _ => inner

/-- Add a watch to the outermost wrapper, or wrap what has none. -/
def insertWatch (watch : Handle) : Layered → Layered
  | bare kind => wrapped (bare kind) [watch]
  | wrapped inner watches => wrapped inner (watches ++ [watch])

/-- Remove a watch from the outermost wrapper, and the wrapper with the last of them. -/
def removeWatch (watch : Handle) : Layered → Layered
  | bare kind => bare kind
  | wrapped inner watches =>
      if watch ∈ watches then
        if watches.erase watch = [] then inner else wrapped inner (watches.erase watch)
      else
        wrapped inner watches

/-- Replace what is under the outermost wrapper; one wrapper of the new register comes off. -/
def install (new : Layered) : Layered → Layered
  | bare _ => new.inner
  | wrapped _ watches => wrapped new.inner watches

def ofRegister : Register → Layered
  | .bare kind => bare kind
  | .watched kind watches => wrapped (bare kind) watches

theorem depth_ofRegister (register : Register) : (ofRegister register).depth ≤ 1 := by
  cases register <;> simp [ofRegister, depth]

def change : IoOperation → Layered → Layered
  | .insertWatch _ watch => insertWatch watch
  | .removeWatch _ watch => removeWatch watch
  | .install _ new => install (ofRegister new)

theorem ofRegister_change (operation : IoOperation) (old : Register) :
    ofRegister (operation.change old) = change operation (ofRegister old) := by
  cases operation with
  | insertWatch _ watch => cases old <;> rfl
  | removeWatch _ watch =>
      cases old with
      | bare kind => rfl
      | watched kind watches =>
          by_cases member : watch ∈ watches
          · by_cases last : watches.erase watch = [] <;>
              simp [IoOperation.change, Register.removeWatch, HandleList.remove, change, ofRegister,
                removeWatch, member, last]
          · rw [IoOperation.change, Register.removeWatch_of_notMem member]
            exact (if_neg member).symm
  | install _ new => cases old <;> cases new <;> rfl

/-- What an operation makes of registers that may be wrapped more than once. -/
def apply (io : Array Layered) (operation : IoOperation) : Array Layered :=
  io.modify operation.register (change operation)

/-- Registers that could be wrapped more than once are what the registers of the machine are. -/
theorem foldl_apply {World : Type} (m : Machine World) (history : List IoOperation) :
    history.foldl apply (m.io.map ofRegister) =
      (ioWatching.run m history).io.map ofRegister := by
  induction history generalizing m with
  | nil => rfl
  | cons operation rest inductionHypothesis =>
      have first : apply (m.io.map ofRegister) operation =
          (m.applyIo operation).io.map ofRegister := by
        rw [applyIo_eq]
        exact (map_modify (ofRegister_change operation) m.io operation.register).symm
      rw [List.foldl_cons, first]
      exact inductionHypothesis (m.applyIo operation)

/-- Nor do they ever come under a second wrapper. -/
theorem depth_foldl_apply {World : Type} (m : Machine World) (history : List IoOperation) :
    ∀ register ∈ history.foldl apply (m.io.map ofRegister), register.depth ≤ 1 := by
  rw [foldl_apply]
  intro register member
  obtain ⟨old, -, rfl⟩ := Array.mem_map.mp member
  exact depth_ofRegister old

end Layered

end Avr.Io

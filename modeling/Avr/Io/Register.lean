import Avr.Handle
import Avr.Io.FlagPair

/-!
Contract: the kinds of IO registers.

Owns:
- what each kind stores;
- the wrapper that holds the watches of a register while there are any.

Does not own: what an access does, which may involve the whole machine.
-/

namespace Avr.Io

/-- A register whose accesses run code of its own. -/
inductive Device where
  /-- The control register of self-programming. -/
  | selfProgramming
  | outside (handle : Handle)
deriving DecidableEq, Repr

inductive Kind where
  | plain (value : UInt8)
  | status
  | stackLow (value : UInt8)
  | stackHigh (value : UInt8)
  /-- Flag half of a pair: writing a one clears the flag. -/
  | flags (value : UInt8) (pair : FlagPair)
  /-- Mask half of a pair. -/
  | mask (value : UInt8) (pair : FlagPair)
  /-- Writes are dropped, or are a fault under strict IO. -/
  | reserved
  | device (device : Device)
deriving DecidableEq, Repr

namespace Kind

/-- The value that a register stores itself. -/
def stored? : Kind → Option UInt8
  | plain value | stackLow value | stackHigh value => some value
  | flags value _ | mask value _ => some value
  | status | reserved | device _ => none

/-- The register with another stored value; kinds that store none stay as they are. -/
def store (kind : Kind) (value : UInt8) : Kind :=
  match kind with
  | plain _ => plain value
  | stackLow _ => stackLow value
  | stackHigh _ => stackHigh value
  | flags _ pair => flags value pair
  | mask _ pair => mask value pair
  | status | reserved | device _ => kind

@[simp] theorem stored?_store (kind : Kind) (value : UInt8) :
    (kind.store value).stored? = kind.stored?.map fun _ => value := by
  cases kind <;> rfl

def describe : Kind → String
  | plain value => Text.applied "Plain" (Text.decimal value.toNat)
  | status => "Status"
  | stackLow value => Text.applied "StackLow" (Text.decimal value.toNat)
  | stackHigh value => Text.applied "StackHigh" (Text.decimal value.toNat)
  | flags value _ => Text.applied "Flag" (Text.decimal value.toNat)
  | mask value _ => Text.applied "Mask" (Text.decimal value.toNat)
  | reserved => "Reserved"
  | device _ => Text.applied "Custom" ".."

end Kind

/-- An IO register, wrapped with its watches while it has any. -/
inductive Register where
  | bare (kind : Kind)
  | watched (kind : Kind) (watches : HandleList)
deriving DecidableEq, Repr

namespace Register

/-- The register under the wrapper. -/
def kind : Register → Kind
  | bare kind => kind
  | watched kind _ => kind

/-- Replace what is under the wrapper. -/
def withKind (register : Register) (kind : Kind) : Register :=
  match register with
  | bare _ => bare kind
  | watched _ watches => watched kind watches

@[simp] theorem kind_withKind (register : Register) (kind : Kind) :
    (register.withKind kind).kind = kind := by
  cases register <;> rfl

def watches? : Register → Option HandleList
  | bare _ => none
  | watched _ watches => some watches

@[simp] theorem watches?_withKind (register : Register) (kind : Kind) :
    (register.withKind kind).watches? = register.watches? := by
  cases register <;> rfl

def stored? (register : Register) : Option UInt8 :=
  register.kind.stored?

def store (register : Register) (value : UInt8) : Register :=
  register.withKind (register.kind.store value)

def insertWatch (register : Register) (watch : Handle) : Register :=
  match register with
  | bare kind => watched kind [watch]
  | watched kind watches => watched kind (HandleList.insert watches watch)

/-- Remove the first entry of a watch, and the wrapper with the last of them. -/
def removeWatch (register : Register) (watch : Handle) : Register × Bool :=
  match register with
  | bare _ => (register, false)
  | watched kind watches =>
    let (rest, found) := HandleList.remove watches watch
    if found then
      (if rest.isEmpty then bare kind else watched kind rest, true)
    else
      (register, false)

def describe : Register → String
  | bare kind => kind.describe
  | watched kind watches =>
      Text.record "Probed"
        [("inner", kind.describe), ("watches", Text.decimal watches.length)]

end Register

end Avr.Io

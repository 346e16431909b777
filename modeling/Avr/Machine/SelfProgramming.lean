import Avr.Machine.Interrupts

/-!
Contract: flash that a program changes itself.

Owns:
- arming of an operation through the control register, and its timeout;
- the store instruction: filling the page buffer, erasing and writing a page;
- completion of page operations.
-/

namespace Avr.Machine

open Avr.Isa Avr.Time

variable {World : Type} (env : Environment World)

/-- Operations that the control register can arm. -/
inductive StoreOperation where
  | fill
  | erase
  | write
  | lockBits
  | enableSection
deriving DecidableEq, Repr

/-- The operation bits of the control register. -/
def operationMask : UInt8 := 0x1F

/-- The operation that a control value arms. -/
def StoreOperation.ofControl? (control : UInt8) : Option StoreOperation :=
  match (control &&& operationMask).toNat with
  | 0x01 => some .fill
  | 0x03 => some .erase
  | 0x05 => some .write
  | 0x09 => some .lockBits
  | 0x11 => some .enableSection
  | _ => none

/-- Cycles for which an armed operation stays armed. -/
def armedCycles : Nat := 6

/-- Milliseconds that a page takes to be erased or written. -/
def pageMillis : Float := 4.5

/-- The value of the control register. -/
def spmControl (m : Machine World) : UInt8 :=
  (m.spm.map SelfProgramming.control).getD 0

def modifySpm (m : Machine World) (change : SelfProgramming → SelfProgramming) : Machine World :=
  { m with spm := m.spm.map change }

/-- The value that the control register takes when `value` is written. -/
def armedValue (value : UInt8) : UInt8 :=
  match StoreOperation.ofControl? value with
  | some _ => value
  | none => value &&& ~~~operationMask

/-- Whether a control value reports self-programming ready: enabled, and nothing under way. -/
def reportsReady (control : UInt8) : Bool :=
  byteBit control 7 && !byteBit control 0

/-- Write the control register: arm an operation until its timeout, or disarm. -/
def writeSpmControl (value : UInt8) : Attempt World Unit := do
  if (StoreOperation.ofControl? value).isSome then
    let _ ← unschedule env .spmReset
    schedule env .spmReset armedCycles
  let control := armedValue value
  modify fun m => m.modifySpm fun unit => { unit with control }
  setPosted env (← get).part.spmReady (reportsReady control)

/-- Clear the operation bits, as on completion or timeout of an operation. -/
def clearOperation : Attempt World Unit := do
  writeSpmControl env ((← get).spmControl &&& ~~~operationMask)

/-- Cancel the timeout of the armed operation. -/
def keepOperation : Action World Unit := do
  let _ ← unschedule env .spmReset

/-- Schedule the completion of a page operation. -/
def schedulePage (page : Nat) (contents : Option (List UInt8)) : Action World Unit := do
  let m ← get
  let size := m.part.pageSize
  schedule env (.pageOperation (page * size) size contents) (cyclesOfMillis m.clock.hz pageMillis)

/-- A page buffer in which nothing is filled. -/
def erasedPage (size : Nat) : List UInt8 :=
  List.replicate size erasedByte

/-- Store two bytes at an even offset of the page buffer. -/
def fillBuffer (buffer : List UInt8) (offset : Nat) (low high : UInt8) : List UInt8 :=
  (buffer.set offset low).set (offset + 1) high

/-- Perform the store instruction on a machine with a self-programming unit. -/
def performStore (spmUnit : SelfProgramming) : Attempt World Unit := do
  let m ← get
  let size := m.part.pageSize
  let page := m.extendedZ / size
  let offset := m.extendedZ % size / 2 * 2
  match StoreOperation.ofControl? spmUnit.control with
  | some .fill =>
    clearOperation env
    modify fun later => later.modifySpm fun unit =>
      { unit with buffer := fillBuffer unit.buffer offset (m.reg 0) (m.reg 1) }
    keepOperation env
  | some .erase =>
    keepOperation env
    schedulePage env page none
  | some .write =>
    keepOperation env
    let contents := ((← get).spm.map SelfProgramming.buffer).getD []
    modify fun later => later.modifySpm fun unit => { unit with buffer := erasedPage size }
    schedulePage env page (some contents)
  | some .lockBits | some .enableSection => keepOperation env
  | none => return

/-- The store instruction; it does nothing on a machine that cannot program itself. -/
def storeProgram : Attempt World Unit := do
  match (← get).spm with
  | none => return
  | some spmUnit => performStore env spmUnit

/-- Clear the operation bits where no one is left to receive a fault. -/
def settleOperation : Action World Unit := do
  if (← get).spm.isSome then
    match ← (clearOperation env).run with
    | .ok () => return
    | .error fault => note env (.spmResetFailed fault)

def pageAction (contents : Option (List UInt8)) : PageAction :=
  if contents.isSome then .write else .erase

/-- Complete a page operation. -/
def completePage (start size : Nat) (contents : Option (List UInt8)) : Action World Unit := do
  match (← get).flash.load start (contents.getD (erasedPage size)) with
  | .ok flash =>
    modify fun m => { m with flash }
    note env (.pageComplete (pageAction contents) start)
  | .error fault => note env (.pageFailed (pageAction contents) fault)
  settleOperation env

end Avr.Machine

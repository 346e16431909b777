import Avr.Proofs.Machine.Change
import Avr.Proofs.Machine.Invariant

/-!
Contract: the operations of a machine are tame if those of its environment are.

Owns:
- what all changes keep, as an invariant of everything that a program and a dispatch do;
- tameness of the operations of interrupts and the clock, of loading and of dispatches.

A computation is tame because what has been reached from a machine is such an invariant.
-/

namespace Avr

variable {World : Type}

namespace Machine

open Avr.Time Avr.Interrupt

variable {env : Environment World}

/-! ### What all changes keep -/

theorem VectorChange.change {change : Table → Nat → Except Fault Table} {t next : Table}
    {vector : Nat} (operation : VectorChange change) (changed : change t vector = .ok next) :
    t.Change next := by
  cases operation with
  | post => exact .post vector changed
  | unpost => exact .unpost vector changed
  | enable => exact .enable vector changed
  | disable => exact .disable vector changed

section Kept

variable {P : Machine World → Prop} (kept : ∀ m next : Machine World, Change m next → P m → P next)
include kept

theorem invariant_of_change (instruments : ∀ handle hook, hook.isInstrument = true →
    (env.notify handle hook).Tame) : Invariant env P fun _ => True where
  note _ := kept _ _ (.edit rfl rfl rfl rfl rfl)
  instrument handle hook instrument :=
    (instruments handle hook instrument).mono fun _ _ reaches => reaches.keeps kept
  add _ _ := kept _ _ (.edit rfl rfl rfl rfl rfl)
  timeout := kept _ _ (.edit rfl rfl rfl rfl rfl)
  vector holds operation _ changed := kept _ _ (.table (operation.change changed)) holds
  load holds loads := kept _ _ (.program fun coherent => coherent.of_load loads) holds
  settleIn _ _ := kept _ _ (.edit rfl rfl rfl rfl rfl)
  addOwner _ := kept _ _ (.edit rfl rfl rfl rfl rfl)
  dropOwner _ := kept _ _ (.edit rfl rfl rfl rfl rfl)

theorem unconcerned_of_change : Unconcerned (Itself P) :=
  unconcerned_itself (fun _ => kept _ _ (.edit rfl rfl rfl rfl rfl))
    fun _ => kept _ _ (.edit rfl rfl rfl rfl rfl)

variable (tame : env.Tame)
include tame

theorem programInvariant_of_change : ProgramInvariant env P fun _ => True := by
  have ofReaches (m next : Machine World) (reaches : Reaches m next) : Keeps P m next :=
    reaches.keeps kept
  exact {
    toInvariant := invariant_of_change kept fun handle hook _ => tame.notify handle hook
    device := fun handle hook _ => (tame.notify handle hook).mono ofReaches
    readDevice := fun handle => (tame.readDevice handle).mono ofReaches
    writeDevice := fun handle value => (tame.writeDevice handle value).mono ofReaches
    readDeviceBit := fun handle bit => (tame.readDeviceBit handle bit).mono ofReaches
    writeDeviceBit := fun handle bit value => (tame.writeDeviceBit handle bit value).mono ofReaches
    readOutside := fun _ _ _ _ => kept _ _ (.edit rfl rfl rfl rfl rfl)
    writeOutside := fun _ _ _ _ => kept _ _ (.edit rfl rfl rfl rfl rfl)
    compute := fun _ _ holds flag => kept _ _ (.edit flag rfl rfl rfl rfl) holds
    allow := kept _ _ (.allow _)
    forbid := kept _ _ (.forbid _) }

theorem dispatching_of_change : Dispatching env (Itself P) Eq fun _ => True :=
  (programInvariant_of_change kept tame).dispatching (unconcerned_of_change kept)
    (fun _ => trivial) (fun _ _ => kept _ _ (.edit rfl rfl rfl rfl rfl))
    (fun _ => kept _ _ (.edit rfl rfl rfl rfl rfl)) (kept _ _ (.edit rfl rfl rfl rfl rfl))

end Kept

/-! ### Tame operations -/

theorem dispatching_reaches (tame : env.Tame) (start : Machine World) :
    Dispatching env (Itself (Reaches start)) Eq fun _ => True :=
  dispatching_of_change (fun _ _ change reaches => reaches.tail change) tame

theorem tame_note (notice : Notice) : (note env notice).Tame :=
  .modify fun _ => .edit rfl rfl rfl rfl rfl

theorem tame_schedule (event : Event) (delay : Nat) : (schedule env event delay).Tame :=
  .bind .get fun _ => .bind (tame_note _) fun _ => .modify fun _ => .edit rfl rfl rfl rfl rfl

theorem tame_loadProgram (program : Program) :
    (loadProgram program : Attempt World Unit).Tame := by
  refine .attempt ?_
  intro m next changed
  split at changed
  · rcases loads : m.flash.load 0 program.bytes.toList with fault | flash
    · rw [loads] at changed
      cases changed
    · rw [loads] at changed
      cases changed
      exact .single (.program (fun coherent => coherent.of_load loads))
  · cases changed

section Operations

variable (tame : env.Tame)
include tame

theorem tame_notifyVector (vector : Nat) {hook : Nat → Hook}
    (instrument : (hook vector).isInstrument = true) : (notifyVector env vector hook).Tame :=
  .of_mirrors fun start => (dispatching_reaches tame start).mirrors_notifyVector vector instrument

theorem tame_notifyGlobal {hook : Nat → Hook} (instrument : (hook 0).isInstrument = true) :
    (notifyGlobal env hook).Tame :=
  .of_mirrors fun start => (dispatching_reaches tame start).mirrors_notifyGlobal instrument

theorem tame_setPosted (vector : Nat) (posted : Bool) : (setPosted env vector posted).Tame :=
  .of_mirrors fun start => (dispatching_reaches tame start).mirrors_setPosted posted trivial

theorem tame_postInterrupt (vector : Nat) : (postInterrupt env vector).Tame :=
  tame_setPosted tame vector true

theorem tame_enableInterrupt (vector : Nat) : (enableInterrupt env vector).Tame :=
  .of_mirrors fun start => (dispatching_reaches tame start).mirrors_setEnabled true trivial

theorem tame_enableInterrupts : (enableInterrupts env).Tame :=
  .of_mirrors fun start => (dispatching_reaches tame start).mirrors_enableInterrupts

theorem tame_pushReturn (word : Nat) : (pushReturn env word).Tame :=
  .of_mirrors fun start => (dispatching_reaches tame start).mirrors_pushReturn word

theorem tame_advance (cycles : Nat) : (advance env cycles).Tame :=
  .of_mirrors fun start => (dispatching_reaches tame start).mirrors_advance cycles

theorem tame_beforeDispatch (vector : Nat) : (beforeDispatch env vector).Tame :=
  .of_mirrors fun start => (dispatching_reaches tame start).mirrors_beforeDispatch vector

theorem tame_wake : (wake env).Tame :=
  .of_mirrors fun start => (dispatching_reaches tame start).mirrors_wake

theorem tame_dispatch (vector : Nat) : (dispatch env vector).Tame :=
  .of_mirrors fun start => (dispatching_reaches tame start).mirrors_dispatch vector

theorem tame_storeProgram : (storeProgram env).Tame :=
  .of_mirrors fun start =>
    ((programInvariant_of_change (P := Reaches start) (fun _ _ change reaches => reaches.tail change)
      tame).background (unconcerned_of_change fun _ _ change reaches =>
        reaches.tail change) fun _ => trivial).mirrors_storeProgram

end Operations

end Machine

end Avr

import Avr.Machine.Interrupts
import Avr.Machine.Reset
import Avr.Proofs.Flash.Coherence
import Avr.Proofs.Interrupt.Table
import Avr.Proofs.Machine.Respect
import Mathlib.Logic.Relation

/-!
Contract: what the operations of a machine can do to what its interrupt check depends on.

Owns:
- the changes that operations make, apart from steps: the global flag, the interrupt table, flash,
  and everything else;
- what the changes keep true;
- environments whose callbacks make such changes only.

Only the check itself clears the mark of the table or has the next check skipped.
-/

namespace Avr

open Interrupt

namespace Machine

variable {World : Type}

/-- One change to a machine by an operation that does not step it. -/
inductive Change : Machine World → Machine World → Prop where
  /-- Anything that the interrupt check does not depend on. -/
  | edit {m next : Machine World} (flag : next.status.i = m.status.i)
      (returned : next.justReturned = m.justReturned) (loop : next.innerLoop = m.innerLoop)
      (table : next.interrupts.table = m.interrupts.table) (flash : next.flash = m.flash) :
      Change m next
  /-- Flash changes, with what it remembers of it. -/
  | program {m : Machine World} {flash : Flash} (follows : m.flash.Coherent → flash.Coherent) :
      Change m { m with flash }
  | table {m : Machine World} {table : Table} (changed : m.interrupts.table.Change table) :
      Change m (m.setTable table)
  | allow (m : Machine World) :
      Change m { m with
        status := { m.status with i := true }
        interrupts := { m.interrupts with table := m.interrupts.table.markStale }
        innerLoop := false }
  | forbid (m : Machine World) : Change m { m with status := { m.status with i := false } }
  | reset (m : Machine World) : Change m m.resetCore

abbrev Reaches : Machine World → Machine World → Prop :=
  Relation.ReflTransGen Change

instance : IsPreorder (Machine World) Reaches where
  refl _ := .refl
  trans _ _ _ := .trans

variable {m next : Machine World}

theorem Reaches.edit (flag : next.status.i = m.status.i)
    (returned : next.justReturned = m.justReturned) (loop : next.innerLoop = m.innerLoop)
    (table : next.interrupts.table = m.interrupts.table) (flash : next.flash = m.flash) :
    Reaches m next :=
  .single (.edit flag returned loop table flash)

/-! ### Invariants -/

theorem Reaches.keeps {P : Machine World → Prop}
    (kept : ∀ m next : Machine World, Change m next → P m → P next) (reaches : Reaches m next) :
    Keeps P m next := by
  intro holds
  induction reaches with
  | refl => exact holds
  | tail _ change inductionHypothesis => exact kept _ _ change inductionHypothesis

/-- Whether the next step makes the interrupt check. -/
def Alert (m : Machine World) : Prop :=
  m.innerLoop = false ∨ m.interrupts.table.stale = true

/-- What a change keeps unless the next step makes the check because of it. -/
structure Calm (m next : Machine World) : Prop where
  alert : m.Alert → next.Alert
  settled : m.justReturned = false → next.justReturned = false
  flag : next.status.i = true → m.status.i = true
  empty : m.interrupts.table.pending = 0 → next.interrupts.table.pending = 0

theorem Change.alert_or_calm (change : Change m next) (sound : m.interrupts.table.Sound) :
    next.Alert ∨ Calm m next := by
  cases change with
  | edit flag returned loop table flash =>
      refine .inr ⟨?_, returned.trans, flag.symm.trans, fun empty => table ▸ empty⟩
      intro already
      rwa [Alert, loop, table]
  | program => exact .inr ⟨id, id, id, id⟩
  | table changed =>
      rcases sound.marks_of_change changed with marked | ⟨kept, empty⟩
      · exact .inl (.inr marked)
      · exact .inr ⟨fun already => already.imp_right kept.trans, id, id, empty⟩
  | allow => exact .inl (.inl rfl)
  | forbid => exact .inr ⟨id, id, fun allowed => absurd allowed Bool.false_ne_true, id⟩
  | reset => exact .inl (.inl rfl)

/-- What holds of every machine that operations and steps lead to. -/
structure WellFormed (m : Machine World) : Prop where
  table : m.interrupts.table.Sound
  flash : m.flash.Coherent

theorem Change.coherent (change : Change m next) (before : m.flash.Coherent) :
    next.flash.Coherent := by
  cases change with
  | edit flag returned loop table flash => exact flash ▸ before
  | program follows => exact follows before
  | table | allow | forbid => exact before
  | reset => exact Flash.agrees_apply before .rearm

theorem Reaches.coherent (reaches : Reaches m next) : m.flash.Coherent → next.flash.Coherent :=
  reaches.keeps fun _ _ change => change.coherent

theorem Change.wellFormed (change : Change m next) (before : m.WellFormed) : next.WellFormed := by
  refine ⟨?_, change.coherent before.flash⟩
  cases change with
  | edit flag returned loop table flash => exact table ▸ before.table
  | table changed => exact before.table.change changed
  | allow => exact before.table.with_stale true
  | program | forbid | reset => exact before.table

/-- The next step makes the check, or else a property holds. -/
structure Guarded (P : Machine World → Prop) (m : Machine World) : Prop extends WellFormed m where
  watch : m.Alert ∨ P m

theorem Reaches.guarded {P : Machine World → Prop}
    (kept : ∀ m next : Machine World, Calm m next → P m → P next) (reaches : Reaches m next) :
    Keeps (Guarded P) m next := by
  refine reaches.keeps ?_
  intro m next change before
  refine ⟨change.wellFormed before.toWellFormed, ?_⟩
  rcases change.alert_or_calm before.table with already | calm
  · exact .inl already
  · exact before.watch.imp calm.alert (kept m next calm)

def Settled (m : Machine World) : Prop :=
  m.justReturned = false

/-- Nothing would come of the interrupt check. -/
structure Quiet (m : Machine World) : Prop where
  settled : m.Settled
  idle : m.status.i = true → m.interrupts.table.pending = 0

/-- A check that something may come of is not skipped: what holds between two steps. -/
abbrev Vigilant : Machine World → Prop :=
  Guarded Quiet

/-- What holds in the middle of a check, when its marks are taken and nothing is dispatched yet. -/
abbrev Unowing : Machine World → Prop :=
  Guarded Settled

/-- The next step makes the check. -/
abbrev Watching : Machine World → Prop :=
  Guarded fun _ => False

theorem Reaches.vigilant (reaches : Reaches m next) : Keeps Vigilant m next :=
  reaches.guarded fun _ _ calm quiet =>
    ⟨calm.settled quiet.settled, fun allowed => calm.empty (quiet.idle (calm.flag allowed))⟩

theorem Reaches.unowing (reaches : Reaches m next) : Keeps Unowing m next :=
  reaches.guarded fun _ _ calm => calm.settled

theorem Reaches.watching (reaches : Reaches m next) : Keeps Watching m next :=
  reaches.guarded fun _ _ _ => id

end Machine

/-! ### Tame computations and environments -/

/-- A computation that neither steps the machine nor replaces its interrupt table. -/
abbrev Action.Tame {World α : Type} (act : Action World α) : Prop :=
  Action.Respects Machine.Reaches act

@[inherit_doc Action.Tame]
abbrev Attempt.Tame {World α : Type} (act : Attempt World α) : Prop :=
  Attempt.Respects Machine.Reaches act

/-- A computation that keeps what holds between two steps. -/
abbrev Action.Watchful {World α : Type} (act : Action World α) : Prop :=
  Action.Respects (Machine.Keeps Machine.Vigilant) act

@[inherit_doc Action.Watchful]
abbrev Attempt.Watchful {World α ε : Type} (act : ExceptT ε (Action World) α) : Prop :=
  Attempt.Respects (Machine.Keeps Machine.Vigilant) act

theorem Action.Tame.watchful {World α : Type} {act : Action World α} (tame : act.Tame) :
    act.Watchful :=
  tame.mono fun _ _ => Machine.Reaches.vigilant

theorem Attempt.Tame.watchful {World α : Type} {act : Attempt World α} (tame : act.Tame) :
    Attempt.Watchful act :=
  tame.mono fun _ _ => Machine.Reaches.vigilant

structure Environment.Tame {World : Type} (env : Environment World) : Prop where
  notify : ∀ handle hook, (env.notify handle hook).Tame
  readDevice : ∀ handle, (env.readDevice handle).Tame
  writeDevice : ∀ handle value, (env.writeDevice handle value).Tame
  readDeviceBit : ∀ handle bit, (env.readDeviceBit handle bit).Tame
  writeDeviceBit : ∀ handle bit value, (env.writeDeviceBit handle bit value).Tame

end Avr

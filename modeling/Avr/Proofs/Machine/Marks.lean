import Avr.Proofs.Machine.Dispatch
import Avr.Proofs.Machine.Steady

/-!
Contract: the marks of a machine that sleeps, and of one that has returned from a handler.

Owns:
- operations that neither step a machine nor let it fall asleep, as devices, events and probes are
  called; a reset may be one of them;
- the marks between two steps: what sleeps is checked at the next step, and no instruction is owed
  to what sleeps;
- the marks across a step that does not fail.
-/

namespace Avr.Machine

open Avr.Isa

variable {World : Type} {env : Environment World} {P : Machine World → Prop}
  {m next : Machine World}

/-- No return is marked, no check is skipped that is due, and the machine does not fall asleep. -/
structure Tranquil (m next : Machine World) : Prop where
  returned : next.justReturned = true → m.justReturned = true
  alert : m.innerLoop = false → next.innerLoop = false
  asleep : next.sleeping = true → m.sleeping = true

instance : IsPreorder (Machine World) Tranquil where
  refl _ := ⟨id, id, id⟩
  trans _ _ _ first second :=
    ⟨first.returned ∘ second.returned, second.alert ∘ first.alert, first.asleep ∘ second.asleep⟩

namespace Tranquil

theorem of_steady (steady : Steady m next) : Tranquil m next where
  returned := steady.returned.symm.trans
  alert := steady.alert
  asleep sleeping := by
    rw [← Bool.not_eq_false]
    intro awake
    rw [steady.awake awake] at sleeping
    cases sleeping

theorem reset (env : Environment World) : Action.Respects Tranquil (reset env) where
  related _ := ⟨nofun, fun _ => rfl, nofun⟩

theorem awake (tranquil : Tranquil m next) (awake : m.sleeping = false) :
    next.sleeping = false := by
  rw [Bool.eq_false_iff] at awake ⊢
  exact awake ∘ tranquil.asleep

theorem settled (tranquil : Tranquil m next) (settled : m.justReturned = false) :
    next.justReturned = false := by
  rw [Bool.eq_false_iff] at settled ⊢
  exact settled ∘ tranquil.returned

end Tranquil

theorem Lasting.of_tranquil (within : env.Within Tranquil)
    (tranquil : ∀ m next, Tranquil m next → P m → P next) : Lasting env P :=
  ⟨fun m next steady => tranquil m next (.of_steady steady), within.mono tranquil⟩

/-! ### Between two steps -/

/-- The marks between two steps. -/
structure Marked (m : Machine World) : Prop where
  owed : m.justReturned = true → m.innerLoop = false ∧ m.sleeping = false
  asleep : m.sleeping = true → m.innerLoop = false

/-- The marks after the check. Until the instruction is executed nothing is owed. -/
structure Resolved (m : Machine World) : Prop where
  settled : m.justReturned = false
  asleep : m.sleeping = true → m.innerLoop = false

theorem marked_new (part : Part) (settings : Settings) (world : World) :
    (new part settings world).Marked :=
  ⟨nofun, nofun⟩

theorem Marked.of_settled (settled : m.justReturned = false)
    (asleep : m.sleeping = true → m.innerLoop = false) : m.Marked :=
  ⟨fun returned => absurd (settled.symm.trans returned) nofun, asleep⟩

theorem Marked.tranquil (marked : m.Marked) (tranquil : Tranquil m next) : next.Marked where
  owed returned := (marked.owed (tranquil.returned returned)).imp tranquil.alert tranquil.awake
  asleep sleeping := tranquil.alert (marked.asleep (tranquil.asleep sleeping))

/-- No instruction is owed to what sleeps. -/
theorem Marked.settled (marked : m.Marked) (asleep : m.sleeping = true) :
    m.justReturned = false := by
  rw [Bool.eq_false_iff]
  intro returned
  have awake := (marked.owed returned).2
  rw [asleep] at awake
  cases awake

/-- The check settles what was owed. -/
theorem Marked.settled_undispatched (marked : m.Marked) : m.undispatched.justReturned = false := by
  rw [undispatched]
  dsimp only
  split
  next => rfl
  next unsettled =>
    show m.justReturned = false
    rw [Bool.eq_false_iff]
    intro returned
    apply unsettled
    show (!m.innerLoop || m.interrupts.table.stale) && m.justReturned
    rw [(marked.owed returned).1, returned]
    rfl

theorem sleeping_undispatched (m : Machine World) : m.undispatched.sleeping = m.sleeping := by
  rw [undispatched]
  dsimp only
  split <;> rfl

theorem sleeping_wake (env : Environment World) (m : Machine World) :
    (wake env m).2.sleeping = false := by
  rw [wake, Action.apply_get_bind]
  cases m.sleeping <;> rfl

section Steps

variable (within : env.Within Tranquil)
include within

theorem lasting_marked : Lasting env Marked :=
  .of_tranquil within fun _ _ tranquil marked => marked.tranquil tranquil

theorem lasting_resolved : Lasting env Resolved :=
  .of_tranquil within fun _ _ tranquil resolved =>
    { settled := tranquil.settled resolved.settled
      asleep := fun sleeping => tranquil.alert (resolved.asleep (tranquil.asleep sleeping)) }

theorem lasting_settled : Lasting env fun m => m.justReturned = false :=
  .of_tranquil within fun _ _ tranquil => tranquil.settled

theorem marked_reti :
    Attempt.Ensures (fun m => m.sleeping = false) (execute env (.control .reti)) Marked
      fun _ _ => True := by
  have alert : Lasting env fun m => m.innerLoop = false ∧ m.sleeping = false :=
    .of_tranquil within fun _ _ tranquil => And.imp tranquil.alert tranquil.awake
  have awake : Lasting env fun m => m.sleeping = false :=
    .of_tranquil within fun _ _ tranquil => tranquil.awake
  exact ensures_return alert (fun m alert awake => ⟨fun _ => ⟨alert, awake⟩, fun _ => alert⟩) awake
    (lasting_marked within)

/-- Apart from a return, an instruction leaves nothing owed. -/
theorem marked_runInstruction (i : Instr) (pc : Nat) (own : HandleList) :
    Attempt.Ensures (fun m => m.sleeping = false ∧ m.justReturned = false)
      (runInstruction env pc i own) Marked fun _ _ => True := by
  have counted : ∀ m : Machine World, m.Marked →
      Marked { m with instructionsRun := m.instructionsRun + 1 } :=
    fun m marked => ⟨marked.owed, marked.asleep⟩
  have start : Lasting env fun m => m.sleeping = false ∧ m.justReturned = false :=
    .of_tranquil within fun _ _ tranquil => And.imp tranquil.awake tranquil.settled
  by_cases reti : i = .control .reti
  · subst reti
    exact ensures_runInstruction start (lasting_marked within)
      ((marked_reti within).weaken fun m before => before.1) counted pc own
  · have resolved := lasting_resolved within
    have handles : Handles env (Itself Resolved) i :=
      resolved.handles (fun isReti => absurd isReti reti)
        fun _ m before => ⟨before.settled, fun _ => rfl⟩
    have stepwise := resolved.stepwise fun m before => ⟨before.settled, before.asleep⟩
    have executes : Attempt.Respects (Keeps Resolved) (execute env i) :=
      (stepwise.mirrors_execute
        (.inr fun _ _ _ ⟨same, before⟩ => ⟨same ▸ rfl, before.settled, before.asleep⟩)
        handles).keeps
    have runs : Attempt.Ensures Resolved (runInstruction env pc i own) Marked fun _ _ => True :=
      ensures_runInstruction resolved resolved (.of_keeps executes fun _ _ _ => trivial)
        (fun m before => .of_settled before.settled before.asleep) pc own
    exact runs.weaken fun m before =>
      ⟨before.2, fun sleeping => absurd (before.1.symm.trans sleeping) nofun⟩

/-- What follows the check leaves a marked machine. -/
theorem marked_finishStep (settled : m.justReturned = false) (owed : Bool)
    (survives : isFatal ((finishStep env owed).run m).1 = false) :
    ((finishStep env owed).run m).2.Marked := by
  cases asleep : m.sleeping with
  | true =>
      have advances := (lasting_settled within).background.mirrors_advance m.sleepCycles
      have slept : (sleepOn env m).2.Marked :=
        .of_settled (advances.keeps.related m settled) fun _ => rfl
      have halts : Attempt.Respects (Keeps Marked) (takeHalt : Stepping World Unit) :=
        ((lasting_marked within).stepwise fun m marked =>
          ⟨marked.owed, marked.asleep⟩).mirrors_takeHalt.keeps
      rw [run_finishStep, if_pos asleep]
      exact halts.run.related _ slept
  | false =>
      have ended := finishes env asleep owed
      revert survives
      generalize (finishStep env owed).run m = stepped at ended ⊢
      intro survives
      cases ended with
      | refused fetches => cases survives
      | @executed fetched flash i own fetches carries =>
          exact holds_finishInstruction (marked_runInstruction within i m.pc own)
            (lasting_marked within) (m := { m with flash }) ⟨asleep, settled⟩ survives
      | paused fetches =>
          cases owed with
          | true => exact ⟨fun _ => ⟨rfl, asleep⟩, fun _ => rfl⟩
          | false =>
              exact .of_settled settled fun sleeping => absurd (asleep.symm.trans sleeping) nofun

/-- A handler is entered awake, with nothing owed. -/
theorem entered_dispatch (vector : Nat) :
    Attempt.Ensures (fun m => m.justReturned = false) (dispatch env vector)
      (fun m => m.sleeping = false ∧ m.justReturned = false) fun _ _ => True := by
  have dispatching := (lasting_settled within).dispatching
  have entered : Lasting env fun m => m.sleeping = false ∧ m.justReturned = false :=
    .of_tranquil within fun _ _ tranquil => And.imp tranquil.awake tranquil.settled
  have settled {α : Type} {act : Attempt World α}
      (keeps : Attempt.Respects (Keeps fun m => m.justReturned = false) act) :
      Attempt.Ensures (fun m => m.justReturned = false) act (fun m => m.justReturned = false)
        fun _ _ => True :=
    .of_keeps keeps fun _ _ _ => trivial
  rw [dispatch_eq]
  refine .bind (settled .get) fun m => ?_
  refine .bind (settled (.lift (dispatching.mirrors_note _).keeps)) fun _ => ?_
  refine .bind (settled (.lift (dispatching.mirrors_beforeDispatch vector).keeps)) fun _ => ?_
  refine .bind (settled .get) fun m => ?_
  refine .bind (settled (dispatching.mirrors_pushReturn _).keeps) fun _ => ?_
  refine .bind (settled (.modify fun _ => id)) fun _ => ?_
  refine .bind (settled (.lift dispatching.mirrors_disableInterrupts.keeps)) fun _ => ?_
  refine .bind (settled (.lift (dispatching.mirrors_advance 4).keeps)) fun _ => ?_
  refine .bind (Q := fun m => m.sleeping = false ∧ m.justReturned = false) (.lift ?_) fun _ => ?_
  · exact fun m before => ⟨sleeping_wake env m, dispatching.mirrors_wake.keeps.related m before⟩
  · exact .lift (entered.dispatching.mirrors_notifyVector vector rfl).keeps.related

/-- A step that does not fail leaves a marked machine. -/
theorem Marked.step (marked : m.Marked) (survives : isFatal ((step env).run m).1 = false) :
    ((step env).run m).2.Marked := by
  have spent : (spendDelay env m).2.Marked :=
    ((lasting_marked within).stepwise fun m marked =>
      ⟨marked.owed, marked.asleep⟩).mirrors_spendDelay.keeps.related m marked
  by_cases stopped : m.state = .stopped
  · rw [run_step_of_stopped stopped]
    exact marked
  · cases dispatched : dispatched? env m with
    | none =>
        obtain ⟨owed, stepped⟩ := run_step_of_not_dispatched stopped dispatched
        rw [stepped] at survives ⊢
        exact marked_finishStep within spent.settled_undispatched owed survives
    | some found =>
        have dispatches := dispatches_of_dispatched dispatched
        rw [dispatches.run_step, Attempt.run_bind, run_orBreak] at survives ⊢
        rcases ran : (dispatch env found.1).run found.2 with ⟨fault | value, entered⟩
        · rw [ran] at survives
          cases survives
        · rw [ran] at survives
          have after := (entered_dispatch within found.1).completed _ _ _ dispatches.settled ran
          exact marked_finishStep within after.2 false survives

end Steps

end Avr.Machine

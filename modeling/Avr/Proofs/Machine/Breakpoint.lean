import Avr.Proofs.Machine.Alongside
import Avr.Proofs.Machine.Control

/-!
Contract: a step that a breakpoint cuts in two comes to the same as one that it does not.

Owns:
- fetches of an instruction, at once or when its breakpoint is passed;
- how a step of a machine that is awake ends after its check;
- the machine that is left at a breakpoint, and the check on it;
- the instruction that a single step executes.

Why a step can be joined again: what comes before the instruction leaves a machine on which it would
all do nothing a second time.
-/

namespace Avr

open Avr.Isa

/-! ### Fetches -/

/-- What is fetched carries an instruction to be executed, with its own probes. -/
inductive Fetched.Carries (i : Instr) : Fetched → HandleList → Prop where
  | plain : Carries i (.plain i) []
  | probed (own : HandleList) : Carries i (.probed i own) own

theorem Fetched.Carries.delivered {i : Instr} {fetched : Fetched} {own : HandleList}
    (carries : fetched.Carries i own) : Flash.delivered? fetched = some i := by
  cases carries <;> rfl

namespace Flash

theorem bare_of_fetch {f next : Flash} {pc : Nat} {fetched : Fetched}
    (fetches : f.fetch pc = .ok (fetched, next)) : next.bare = f.bare := by
  have after := f.bare_apply (rfl : (Operation.fetch pc).writes = false)
  rwa [apply, fetches] at after

theorem Coherent.of_fetched {f next : Flash} (coherent : f.Coherent) {pc : Nat} {fetched : Fetched}
    (fetches : f.fetch pc = .ok (fetched, next)) : next.Coherent := by
  have after := agrees_apply coherent (.fetch pc)
  rwa [apply, fetches] at after

section Slots

variable {f : Flash} {pc index : Nat} (found : f.wordIndex pc = .ok index)
include found

theorem fetch_of_ready {i : Instr} (slot : f.slot index = .ready i) :
    f.fetch pc = .ok (.plain i, f) := by
  simp only [fetch, found, bind, Except.bind, slot]
  rfl

theorem fetch_of_empty (slot : f.slot index = .empty) :
    f.fetch pc = .ok (.plain (f.decodeAt index), f.setSlot index (.ready (f.decodeAt index))) := by
  simp only [fetch, found, bind, Except.bind, slot]
  rfl

theorem fetch_of_armed {attachment : Attachment} (slot : f.slot index = .attached attachment)
    (armed : (attachment.breakpoint && !attachment.fired) = true) :
    f.fetch pc = .ok (.paused, f.setSlot index (.attached { attachment with fired := true })) := by
  simp only [fetch, found, bind, Except.bind, slot, armed]
  rfl

theorem fetch_of_unarmed {attachment : Attachment} (slot : f.slot index = .attached attachment)
    (unarmed : (attachment.breakpoint && !attachment.fired) = false) :
    f.fetch pc = .ok (.probed attachment.instr attachment.probes,
      f.setSlot index (.attached { attachment with fired := false })) := by
  simp only [fetch, found, bind, Except.bind, slot, unarmed]
  rfl

end Slots

theorem lt_of_wordIndex {f : Flash} {address index : Nat}
    (found : f.wordIndex address = .ok index) : index < f.slots.size := by
  rw [wordIndex] at found
  split at found
  · split at found
    · cases found
      assumption
    · cases found
  · cases found

/-- An instruction is fetched at once, or when its breakpoint is passed. -/
theorem Coherent.fetch_or_pause {f : Flash} (coherent : f.Coherent) {pc index : Nat}
    (found : f.wordIndex pc = .ok index) :
    (∃ fetched own next, f.fetch pc = .ok (fetched, next) ∧
        fetched.Carries (f.decodeAt index) own) ∨
      ∃ fired, f.fetch pc = .ok (.paused, fired) ∧
        ∃ own next, fired.fetch pc = .ok (.probed (f.decodeAt index) own, next) := by
  cases slot : f.slot index with
  | ready i =>
      have remembers : i = f.decodeAt index := coherent index i (by rw [slot]; rfl)
      exact .inl ⟨_, [], _, fetch_of_ready found slot, remembers ▸ .plain⟩
  | empty => exact .inl ⟨_, [], _, fetch_of_empty found slot, .plain⟩
  | attached attachment =>
      rw [← (coherent index).attached slot]
      cases armed : attachment.breakpoint && !attachment.fired with
      | false =>
          exact .inl ⟨_, _, _, fetch_of_unarmed found slot armed, .probed _⟩
      | true =>
          refine .inr ⟨_, fetch_of_armed found slot armed, ?_⟩
          have fired := slot_setSlot_self (.attached { attachment with fired := true })
            (lt_of_wordIndex found)
          have again : (f.setSlot index (.attached { attachment with fired := true })).wordIndex pc
              = .ok index := by
            rw [← found, wordIndex, wordIndex, size_slots_setSlot]
          have passes := fetch_of_unarmed again fired (by simp only [Bool.not_true, Bool.and_false])
          exact ⟨_, _, passes⟩

end Flash

namespace Machine

variable {World Outside : Type} {env : Environment World} {view : World → Outside}
  {m n : Machine World}

/-! ### The instruction -/

/-- The rest of a step that executes an instruction. -/
def finishInstruction (env : Environment World) (pc : Nat) (i : Instr) (own : HandleList) :
    Stepping World Unit := do
  orBreak (runInstruction env pc i own)
  takeHalt

theorem run_takeHalt_ne_breakpoint (m : Machine World) (pc : Nat) :
    ((takeHalt : Stepping World Unit).run m).1 ≠ .error (.breakpoint pc) := by
  rw [run_takeHalt]
  cases m.halt with
  | none => exact fun same => by cases same
  | some halt => cases halt <;> exact fun same => by cases same

theorem run_finishInstruction_ne_breakpoint (i : Instr) (own : HandleList) (pc address : Nat) :
    ((finishInstruction env pc i own).run m).1 ≠ .error (.breakpoint address) := by
  rw [finishInstruction, Attempt.run_bind, run_orBreak]
  rcases (runInstruction env pc i own).run m with ⟨fault | value, next⟩
  · exact fun same => by cases same
  · exact run_takeHalt_ne_breakpoint next address

theorem run_stepThrough_of_ne (unpaused : ∀ pc, ((step env).run m).1 ≠ .error (.breakpoint pc)) :
    (stepThrough env).run m = (step env).run m := by
  rw [run_stepThrough]
  rcases ran : (step env).run m with ⟨broken | value, next⟩
  · rw [ran] at unpaused
    cases broken with
    | breakpoint pc => exact absurd rfl (unpaused pc)
    | _ => rfl
  · rfl

theorem run_finishStep_of_carries (awake : m.sleeping = false) {fetched : Fetched} {flash : Flash}
    (fetches : m.flash.fetch m.pc = .ok (fetched, flash)) {i : Instr} {own : HandleList}
    (carries : fetched.Carries i own) (owed : Bool) :
    (finishStep env owed).run m = (finishInstruction env m.pc i own).run { m with flash } := by
  rw [run_finishStep_of_fetch awake fetches]
  cases carries <;> rfl

theorem run_finishStep_of_refused (awake : m.sleeping = false) {fault : Fault}
    (refused : m.flash.wordIndex m.pc = .error fault) (owed : Bool) :
    (finishStep env owed).run m = (.error (.failed fault), m) := by
  have notAsleep : ¬ m.sleeping = true := by rw [awake]; exact Bool.false_ne_true
  have fetches : m.flash.fetch m.pc = .error fault := by
    rw [Flash.fetch, refused]
    rfl
  rw [run_finishStep, if_neg notAsleep, Attempt.run_bind, run_stepInstruction, fetches]

theorem run_step_of_poll (tame : env.Tame) (vigilant : m.Vigilant) (running : m.state ≠ .stopped)
    {owed : Bool} {reached : Machine World}
    (polled : (pollAlways env).run (spendDelay env m).2 = (.ok owed, reached)) :
    (step env).run m = (finishStep env owed).run reached := by
  rw [run_step tame vigilant, stepAlways, run_stepPolling, if_neg running, Attempt.run_bind,
    run_orBreak, polled]

/-! ### A breakpoint is passed -/

/-- The machine that is left at a breakpoint. -/
def pausedAt (env : Environment World) (pc : Nat) (owed : Bool) (m : Machine World) :
    Machine World :=
  let noted := { m with world := env.note (.breakpoint pc) m.world }
  if owed then { noted with justReturned := true, innerLoop := false } else noted

theorem run_pauseAt (pc : Nat) (owed : Bool) :
    (pauseAt env pc owed).run m = (.error (.breakpoint pc), pausedAt env pc owed m) := by
  cases owed <;> rfl

/-- How a step of a machine that is awake ends after the check. -/
inductive Finishes (env : Environment World) (owed : Bool) (m : Machine World) :
    Except Break Unit × Machine World → Prop where
  | refused {fault : Fault} (fetches : m.flash.fetch m.pc = .error fault) :
      Finishes env owed m (.error (.failed fault), m)
  | executed {fetched : Fetched} {flash : Flash} {i : Instr} {own : HandleList}
      (fetches : m.flash.fetch m.pc = .ok (fetched, flash)) (carries : fetched.Carries i own) :
      Finishes env owed m ((finishInstruction env m.pc i own).run { m with flash })
  | paused {flash : Flash} (fetches : m.flash.fetch m.pc = .ok (.paused, flash)) :
      Finishes env owed m (.error (.breakpoint m.pc), pausedAt env m.pc owed { m with flash })

theorem finishes (env : Environment World) (awake : m.sleeping = false) (owed : Bool) :
    Finishes env owed m ((finishStep env owed).run m) := by
  rcases fetches : m.flash.fetch m.pc with fault | ⟨fetched, flash⟩
  · have notAsleep : ¬ m.sleeping = true := by rw [awake]; exact Bool.false_ne_true
    rw [run_finishStep, if_neg notAsleep, Attempt.run_bind, run_stepInstruction, fetches]
    exact .refused fetches
  · cases fetched with
    | plain i =>
        rw [run_finishStep_of_carries awake fetches .plain]
        exact .executed fetches .plain
    | probed i own =>
        rw [run_finishStep_of_carries awake fetches (.probed own)]
        exact .executed fetches (.probed own)
    | paused =>
        rw [run_finishStep_of_fetch awake fetches, Attempt.run_bind, proceed, run_pauseAt]
        exact .paused fetches

/-- The check comes to the same once more. -/
theorem polls_again (transparent : env.Transparent view) {owed : Bool}
    (checked : Checked owed m) {flash : Flash} (same : flash.bare = m.flash.bare) (pc : Nat) :
    ∃ ready,
      (pollAlways env).run (spendDelay env (pausedAt env pc owed { m with flash })).2 =
        (.ok owed, ready) ∧
      ready.flash = flash ∧ Alike view ready m := by
  have world : view (env.note (.breakpoint pc) m.world) = view m.world :=
    transparent.discreet.note _ _
  have noted : Alike view (pausedAt env pc false { m with flash }) m :=
    ((Alike.refl view m).withFlash same).withWorld world
  cases owed with
  | true =>
      refine ⟨{ (takeCheck (pausedAt env pc true { m with flash })).1 with
        justReturned := false, innerLoop := false }, ?_, rfl, ?_⟩
      · rw [spendDelay_of_prompt (m := pausedAt env pc true { m with flash }) checked.going.prompt]
        rfl
      · have settled : { m with justReturned := false } = m := by rw [← checked.settled]
        have alike := noted.map fun g => { g with justReturned := false }
        exact Eq.trans alike (congrArg (guest view) settled)
  | false =>
      refine ⟨(takeCheck (pausedAt env pc false { m with flash })).1, ?_, rfl, noted⟩
      rw [spendDelay_of_prompt (m := pausedAt env pc false { m with flash }) checked.going.prompt]
      have quiet : (takeCheck (pausedAt env pc false { m with flash })).1.Quiet :=
        ⟨checked.settled, checked.idle rfl⟩
      exact run_checkInterrupts_of_quiet quiet true

/-- A single step executes the instruction that the bytes of flash hold at the program counter, from
a machine that is like the one that the interrupt check left. -/
theorem run_stepThrough_of_found (transparent : env.Transparent view) (vigilant : m.Vigilant)
    (running : m.state ≠ .stopped) {owed : Bool} {reached : Machine World}
    (polled : (pollAlways env).run (spendDelay env m).2 = (.ok owed, reached))
    (coherent : reached.flash.Coherent) (awake : reached.sleeping = false) {index : Nat}
    (found : reached.flash.wordIndex reached.pc = .ok index) :
    ∃ own ready, Alike view ready reached ∧ ready.flash.Coherent ∧
      (stepThrough env).run m =
        (finishInstruction env reached.pc (reached.flash.decodeAt index) own).run ready := by
  have stepped := run_step_of_poll transparent.tame vigilant running polled
  rcases coherent.fetch_or_pause found with
    ⟨fetched, own, flash, fetches, carries⟩ | ⟨fired, pauses, own, flash, fetches⟩
  · rw [run_finishStep_of_carries awake fetches carries] at stepped
    refine ⟨own, { reached with flash }, ?_, coherent.of_fetched fetches, ?_⟩
    · exact (Alike.refl view reached).withFlash (Flash.bare_of_fetch fetches)
    · rw [← stepped]
      refine run_stepThrough_of_ne fun pc => ?_
      rw [stepped]
      exact run_finishInstruction_ne_breakpoint _ _ _ _
  · have going := going_spendDelay transparent running
    have taken : (takeCheck (spendDelay env m).2).1.Going := ⟨going.running, going.prompt⟩
    have checked : Checked owed reached := checked_checkInterrupts transparent taken polled
    rw [run_finishStep_of_fetch awake pauses, Attempt.run_bind, proceed, run_pauseAt] at stepped
    dsimp only at stepped
    obtain ⟨ready, again, holds, alike⟩ :=
      polls_again transparent checked (Flash.bare_of_fetch pauses) reached.pc
    have goesOn : (pausedAt env reached.pc owed { reached with flash := fired }).state ≠ .stopped := by
      cases owed <;> exact checked.going.running
    have next := run_step_of_poll transparent.tame
      (vigilant_step transparent.tame vigilant stepped rfl) goesOn again
    have refetches : ready.flash.fetch ready.pc =
        .ok (.probed (reached.flash.decodeAt index) own, flash) := by
      rw [holds, alike.akin.pc, fetches]
    rw [run_finishStep_of_carries (alike.akin.sleeping.trans awake) refetches (.probed own)] at next
    refine ⟨own, { ready with flash }, ?_, (coherent.of_fetched pauses).of_fetched fetches, ?_⟩
    · have same : flash.bare = ready.flash.bare := by rw [holds, Flash.bare_of_fetch fetches]
      exact ((Alike.refl view ready).withFlash same).trans alike
    · rw [run_stepThrough, stepped]
      exact next.trans (congrArg
        (fun pc => (finishInstruction env pc (reached.flash.decodeAt index) own).run
          { ready with flash }) alike.akin.pc)

end Machine

end Avr

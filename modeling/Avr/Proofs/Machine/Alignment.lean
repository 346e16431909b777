import Avr.Proofs.Flash.Coherence
import Avr.Proofs.Machine.Steady
import Avr.Proofs.Machine.Work
import Mathlib.Data.Int.ModEq

/-!
Contract: the program counter stays on the words of flash.

Owns:
- parts whose flash and interrupt vectors consist of whole words;
- the alignment of the program counter, which everything keeps that does not move it from outside;
- relative jumps, which stay inside of flash.

Flash may be rewritten at any time: what is fetched does not matter, only that a fetch begins at a
word.
-/

namespace Avr

open Avr.Isa

/-- Flash and the interrupt vectors of the part consist of whole words. -/
structure Part.WholeWords (part : Part) : Prop where
  even : part.flashSize % 2 = 0
  positive : 0 < part.flashSize
  base : part.interruptBase % 2 = 0
  stride : part.interruptStride % 2 = 0

theorem Part.WholeWords.vectorAddress {part : Part} (words : part.WholeWords) (vector : Nat) :
    part.vectorAddress vector % 2 = 0 := by
  have distance : (vector - 1) * part.interruptStride % 2 = 0 := by
    rw [Nat.mul_mod, words.stride, Nat.mul_zero]
  have base := words.base
  rw [Part.vectorAddress]
  omega

namespace Flash

theorem size_of_load {f next : Flash} {offset : Nat} {values : List UInt8}
    (wrote : f.load offset values = .ok next) : next.size = f.size := by
  have kept := kept_load f offset values
  rw [wrote] at kept
  change next = _ at kept
  rw [kept]
  split
  · rw [Flash.size, segment_invalidateFrom]
    exact Memory.Segment.size_overwrite _ _ _
  · rfl

theorem size_of_fetch {f next : Flash} {pc : Nat} {fetched : Fetched}
    (fetches : f.fetch pc = .ok (fetched, next)) : next.size = f.size := by
  have same := segment_apply f (rfl : (Operation.fetch pc).writes = false)
  rw [apply, fetches] at same
  exact congrArg Memory.Segment.size same

/-- A fetch fails only between words or outside of flash. -/
theorem fetch_refused {f : Flash} {pc : Nat} {fault : Fault} (failed : f.fetch pc = .error fault) :
    (pc % 2 ≠ 0 ∧ fault = .misaligned pc) ∨
      (pc % 2 = 0 ∧ f.slots.size ≤ pc / 2 ∧ fault = .outOfBounds "flash" pc) := by
  rw [fetch, wordIndex] at failed
  split at failed
  · next even =>
    split at failed
    · simp only [bind, Except.bind, pure, Except.pure] at failed
      split at failed
      · cases failed
      · split at failed <;> cases failed
      · cases failed
    · next outside =>
      cases failed
      exact .inr ⟨even, Nat.le_of_not_lt outside, rfl⟩
  · next odd =>
    cases failed
    exact .inl ⟨odd, rfl⟩

end Flash

namespace Machine

variable {World : Type} {env : Environment World} {part : Part} {m next last : Machine World}

/-! ### Alignment -/

/-- The machine is of a part, with all of its flash, and the program counter points to a word. -/
structure Aligned (part : Part) (m : Machine World) : Prop where
  same : m.part = part
  flash : m.flash.size = part.flashSize
  pc : m.pc % 2 = 0

namespace Aligned

theorem edit (aligned : m.Aligned part) (same : next.part = m.part)
    (flash : next.flash.size = m.flash.size) (pc : next.pc = m.pc) : next.Aligned part :=
  ⟨same.trans aligned.same, flash.trans aligned.flash, pc ▸ aligned.pc⟩

theorem jump (aligned : m.Aligned part) {pc : Nat} (even : pc % 2 = 0) :
    ({ m with pc } : Machine World).Aligned part :=
  ⟨aligned.same, aligned.flash, even⟩

end Aligned

theorem aligned_new (part : Part) (settings : Settings) (world : World) :
    (new part settings world).Aligned part where
  same := rfl
  flash := Array.size_replicate
  pc := rfl

theorem keeps_loadProgram_aligned (program : Program) :
    Attempt.Respects (Keeps (Aligned part)) (loadProgram program : Attempt World Unit) := by
  refine .attempt fun m next changed aligned => ?_
  split at changed
  · rcases loads : m.flash.load 0 program.bytes.toList with fault | flash <;>
      rw [loads] at changed <;> cases changed
    exact aligned.edit rfl (Flash.size_of_load loads) rfl
  · cases changed

section Upholds

variable (upholds : env.Upholds (Aligned part))
include upholds

theorem programInvariant_aligned : ProgramInvariant env (Aligned part) fun _ => True where
  note _ aligned := aligned.edit rfl rfl rfl
  instrument handle hook _ := upholds.notify handle hook
  add _ _ aligned := aligned.edit rfl rfl rfl
  timeout aligned := aligned.edit rfl rfl rfl
  vector aligned _ _ _ := aligned.edit rfl rfl rfl
  load aligned loads := aligned.edit rfl (Flash.size_of_load loads) rfl
  settleIn _ _ aligned := aligned.edit rfl rfl rfl
  addOwner _ aligned := aligned.edit rfl rfl rfl
  dropOwner _ aligned := aligned.edit rfl rfl rfl
  device handle hook _ := upholds.notify handle hook
  readDevice := upholds.readDevice
  writeDevice := upholds.writeDevice
  readDeviceBit := upholds.readDeviceBit
  writeDeviceBit := upholds.writeDeviceBit
  readOutside _ _ _ _ aligned := aligned.edit rfl rfl rfl
  writeOutside _ _ _ _ aligned := aligned.edit rfl rfl rfl
  compute _ _ aligned _ := aligned.edit rfl rfl rfl
  allow aligned := aligned.edit rfl rfl rfl
  forbid aligned := aligned.edit rfl rfl rfl

theorem background_aligned : Background env (Itself (Aligned part)) Eq fun _ => True :=
  (programInvariant_aligned upholds).background
    (unconcerned_itself (fun _ aligned => aligned.edit rfl rfl rfl)
      fun _ aligned => aligned.edit rfl rfl rfl) fun _ => trivial

theorem performing_aligned : Performing env (Itself (Aligned part)) Eq fun _ => True where
  toAccesses := (programInvariant_aligned upholds).computing.accesses
    (unconcerned_itself (fun _ aligned => aligned.edit rfl rfl rfl)
      fun _ aligned => aligned.edit rfl rfl rfl) (fun _ => trivial)
    fun _ _ ⟨same, aligned⟩ => ⟨same ▸ rfl, aligned.edit rfl rfl rfl⟩
  breaking := fun ⟨same, aligned⟩ => ⟨same ▸ rfl, aligned.edit rfl rfl rfl⟩

theorem keeps_perform_aligned (i : Instr) (next : Nat) :
    Attempt.Respects (Keeps (Aligned part)) (perform env i next) := by
  have handles : Handles env (Itself (Aligned part)) i :=
    (programInvariant_aligned upholds).computing.handles
      (fun _ _ aligned => aligned.edit rfl rfl rfl)
      (fun _ => (background_aligned upholds).mirrors_storeProgram.keeps)
      fun _ _ aligned => aligned.edit rfl rfl rfl
  exact ((performing_aligned upholds).mirrors_perform
    (.inr fun _ _ _ ⟨same, aligned⟩ => ⟨same ▸ rfl, aligned.edit rfl rfl rfl⟩) handles next).keeps

end Upholds

/-! ### Targets -/

namespace Aligned

variable (aligned : m.Aligned part) (words : part.WholeWords)
include aligned words

/-- The target of a relative jump, wrapped around flash. -/
theorem cast_relativeTarget (next : Nat) (k : Int) :
    (m.relativeTarget next k : Int) = ((next : Int) + 2 * k) % part.flashSize := by
  have size : max m.flash.size 2 = part.flashSize := by
    have even := words.even
    have positive := words.positive
    rw [aligned.flash]
    omega
  rw [relativeTarget, size]
  exact Int.toNat_of_nonneg (Int.emod_nonneg _ (by have := words.positive; omega))

theorem even_relativeTarget {next : Nat} (even : next % 2 = 0) (k : Int) :
    m.relativeTarget next k % 2 = 0 := by
  have target := aligned.cast_relativeTarget words next k
  have divides : (2 : Int) ∣ part.flashSize :=
    Int.natCast_dvd_natCast.mpr (Nat.dvd_of_mod_eq_zero words.even)
  have parity := Int.emod_emod_of_dvd ((next : Int) + 2 * k) divides
  rw [← target] at parity
  omega

theorem even_of_successor {next pc : Nat} (even : next % 2 = 0) (successor : Successor m next pc) :
    pc % 2 = 0 := by
  cases successor with
  | ahead words => omega
  | relative k => exact aligned.even_relativeTarget words even k
  | absolute word => omega

end Aligned

/-! ### Steps -/

section Steps

variable (upholds : env.Upholds (Aligned part)) (words : part.WholeWords)
include upholds words

theorem sustains_execute_aligned (i : Instr) :
    Sustains (Aligned part) (Raised env) (execute env i) := by
  refine .get fun m aligned => ?_
  have even : following m.pc i % 2 = 0 := following_even aligned.pc i
  refine sustains_bind (keeps_perform_aligned upholds i _) (leadsOn_perform i _) fun outcome => ?_
  refine .bind (.lift fun final ⟨aligned, leads⟩ => ?_) fun _ => .pure fun _ => id
  exact aligned.jump (aligned.even_of_successor words even leads)

theorem working_aligned : Working env (Aligned part) (Raised env) fun _ => True where
  toAccesses := (performing_aligned upholds).toAccesses
  advances cycles := ((background_aligned upholds).mirrors_advance cycles).keeps
  push word := sustains_of_raises
    ((performing_aligned upholds).mirrors_pushReturn word).keeps (raises_pushReturn word)
  enter vector aligned := aligned.jump (aligned.same ▸ words.vectorAddress vector)
  wake aligned := aligned.edit rfl rfl rfl
  execute := sustains_execute_aligned upholds words
  fetch := sustains_fetch
    (fun _ _ _ aligned fetches => aligned.edit rfl (Flash.size_of_fetch fetches) rfl)
    fun _ _ aligned failed => by
      rcases Flash.fetch_refused failed with ⟨odd, -⟩ | ⟨-, -, rfl⟩
      · exact absurd aligned.pc odd
      · exact .outside _ _
  count aligned := aligned.edit rfl rfl rfl
  spend aligned := aligned.edit rfl rfl rfl
  look _ aligned := aligned.edit rfl rfl rfl
  stale _ aligned := aligned.edit rfl rfl rfl
  returned _ aligned := aligned.edit rfl rfl rfl

/-- A step keeps the program counter on words, and fails only as a running program does. -/
theorem ensures_step_aligned :
    Attempt.Ensures (Aligned part) (step env) (Aligned part)
      (FailsWith (Aligned part) (Raised env)) :=
  (working_aligned upholds words).ensures_step fun aligned => aligned.edit rfl rfl rfl

theorem Aligned.step (aligned : m.Aligned part) : ((Machine.step env).run m).2.Aligned part := by
  have ensures := ensures_step_aligned upholds words
  rcases ran : (Machine.step env).run m with ⟨broken | value, next⟩
  · exact (ensures.failed m broken next aligned ran).2
  · exact ensures.completed m value next aligned ran

end Steps

/-! ### Relative jumps -/

/-- The distance, in words, by which an instruction jumps from the following one. -/
def jumps? (m : Machine World) : Instr → Option Int
  | .relative _ k => some k
  | .branch onSet s k => if m.status.bit s.toNat = onSet then some k else none
  | _ => none

/-- The program counter points to a word of flash that is as far away as an instruction said. -/
structure Lands (part : Part) (source : Nat) (k : Int) (target : Nat) : Prop where
  even : target % 2 = 0
  inside : target < part.flashSize
  distance : (target : Int) ≡ source + 2 * k [ZMOD part.flashSize]

theorem Aligned.lands (aligned : m.Aligned part) (words : part.WholeWords) {source : Nat}
    (even : source % 2 = 0) (k : Int) : Lands part source k (m.relativeTarget source k) := by
  have target := aligned.cast_relativeTarget words source k
  have positive : (0 : Int) < part.flashSize := by exact_mod_cast words.positive
  refine ⟨aligned.even_relativeTarget words even k, ?_, ?_⟩
  · have below := Int.emod_lt_of_pos ((source : Int) + 2 * k) positive
    omega
  · rw [target]
    exact Int.mod_modEq _ _

/-- A relative jump lands, or it is a call that cannot push where to return to. -/
theorem Aligned.lands_execute (aligned : m.Aligned part) (words : part.WholeWords)
    (upholds : env.Upholds (Aligned part)) {i : Instr} {k : Int} (jumps : m.jumps? i = some k) :
    (∃ cycles done, (execute env i).run m = (.ok cycles, done) ∧
        Lands part (following m.pc i) k done.pc) ∨
      (i = .relative true k ∧ ∃ fault failed, (execute env i).run m = (.error fault, failed) ∧
        (call env (following m.pc i)).run m = (.error fault, failed)) := by
  have even : following m.pc i % 2 = 0 := following_even aligned.pc i
  have jumped {m' : Machine World} (aligned' : m'.Aligned part) (cycles : Nat)
      (performed : (perform env i (following m.pc i)).run m =
        (.ok ⟨m'.relativeTarget (following m.pc i) k, cycles⟩, m')) :
      ∃ cycles done, (execute env i).run m = (.ok cycles, done) ∧
        Lands part (following m.pc i) k done.pc :=
    ⟨_, _, run_execute_of_performed performed, aligned'.lands words even k⟩
  unfold jumps? at jumps
  split at jumps
  case h_1 isCall offset =>
    cases jumps
    cases isCall with
    | false => exact .inl (jumped aligned 2 rfl)
    | true =>
        have performs (next : Nat) : perform env (.relative true k) next = (do
            call env next
            return ⟨(← get).relativeTarget next k, 3⟩) := rfl
        have called := ((performing_aligned upholds).mirrors_call
          (following m.pc (.relative true k))).keeps.run.related m aligned
        rcases ran : (call env (following m.pc (.relative true k))).run m with
          ⟨fault | _, after⟩ <;> rw [ran] at called
        · refine .inr ⟨rfl, fault, after, ?_, rfl⟩
          rw [execute, Attempt.run_bind, Attempt.run_get]
          dsimp only
          rw [performs, Attempt.run_bind, Attempt.run_bind, ran]
        · refine .inl (jumped called 3 ?_)
          rw [performs, Attempt.run_bind, ran]
          rfl
  case h_2 onSet s offset =>
    split at jumps
    · next taken =>
      cases jumps
      refine .inl (jumped aligned 2 ?_)
      rw [perform, Attempt.run_bind, Attempt.run_get]
      dsimp only
      rw [if_pos taken]
      rfl
    · cases jumps
  case h_3 => cases jumps

/-- As long as nothing from outside moves the program counter off the words of flash, it stays on
them over any number of steps, whatever flash comes to hold. So no step fails because it does not
point to a word, unless a device fails with such a fault of its own accord. Relative jumps that are
taken land in flash, as far from the following instruction as they say. -/
theorem counter_stays_aligned (words : part.WholeWords) (upholds : env.Upholds (Aligned part))
    (settings : Settings) (world : World)
    (interlude : Interlude env (Aligned part) (new part settings world) last) :
    last.Aligned part ∧
    (∀ pc, ((step env).run last).1 = .error (.failed (.misaligned pc)) →
      env.Raises (.misaligned pc)) ∧
    ∀ m : Machine World, m.Aligned part → ∀ i k, m.jumps? i = some k →
      (∃ cycles done, (execute env i).run m = (.ok cycles, done) ∧
          Lands part (following m.pc i) k done.pc) ∨
        (i = .relative true k ∧ ∃ fault failed, (execute env i).run m = (.error fault, failed) ∧
          (call env (following m.pc i)).run m = (.error fault, failed)) := by
  have aligned : last.Aligned part :=
    interlude.keeps (Aligned.step upholds words) (aligned_new part settings world)
  refine ⟨aligned, fun pc failed => ?_, fun m aligned i k jumps =>
    aligned.lands_execute words upholds jumps⟩
  rcases ran : (step env).run last with ⟨broken | value, next⟩ <;> rw [ran] at failed <;>
    cases failed
  obtain ⟨raised, -⟩ := (ensures_step_aligned upholds words).failed last _ next aligned ran
  cases raised _ rfl with
  | device raises => exact raises

/-- A program of one jump back from the start of flash lands near its end. -/
theorem counter_stays_aligned_wrapped :
    let back := Program.ofInstrs [.relative false (-3)]
    let loaded := ((loadProgram back).run (new smallPart ⟨.known 0, false, false⟩ ())).2
    let jumped := ((step silence).run loaded).2
    jumped.Aligned smallPart ∧ jumped.pc = 12 ∧ Lands smallPart 2 (-3) 12 ∧
      ∀ pc, ((step silence).run jumped).1 ≠ .error (.failed (.misaligned pc)) := by
  intro back loaded jumped
  have words : smallPart.WholeWords := ⟨by decide, by decide, by decide, by decide⟩
  have loads : Action.Respects (Keeps (Aligned smallPart))
      (do let _ ← (loadProgram back).run : Action Unit Unit) :=
    .bind (keeps_loadProgram_aligned back).run fun _ => .pure _
  obtain ⟨aligned, honest, lands⟩ := counter_stays_aligned words (within_silence (R := Keeps _))
    ⟨.known 0, false, false⟩ () (.tail (.single (.act _ loads)) .step)
  refine ⟨aligned, by decide +kernel, ?_, fun pc failed => ?_⟩
  · obtain ⟨cycles, done, ran, landed⟩ | ⟨called, -⟩ :=
      lands loaded (loads.related _ (aligned_new _ _ _)) (.relative false (-3)) (-3) rfl
    · have source : following loaded.pc (.relative false (-3)) = 2 := by decide +kernel
      have target : ((execute silence (.relative false (-3))).run loaded).2.pc = 12 := by
        decide +kernel
      rw [ran] at target
      rwa [source, target] at landed
    · cases called
  · obtain ⟨handle, m, ⟨value, raised⟩ | ⟨bit, value, raised⟩⟩ := honest pc failed <;> cases raised

end Machine

end Avr

import Avr.Proofs.Flash.Coherence
import Avr.Proofs.Machine.Costs
import Avr.Proofs.Machine.FlashInvariant
import Avr.Proofs.Machine.Steady
import Avr.Proofs.Machine.Work

/-!
Contract: a skip goes over exactly one instruction.

Owns:
- machines whose flash came about by operations on flash, which everything keeps;
- where a skip goes on and what it costs, by the instruction that flash gives at the skipped word.

A skip looks at the bytes of flash, a fetch at what a slot remembers. The two agree after every
history of flash, whatever is attached to the skipped instruction.
-/

namespace Avr

open Avr.Isa

/-- The instruction may skip the one that follows it. -/
def Isa.Instr.isSkip : Instr → Bool
  | .binary .cpse .. | .registerBit .sbrc .. | .registerBit .sbrs .. => true
  | .ioBit .sbic .. | .ioBit .sbis .. => true
  | _ => false

namespace Machine

variable {World : Type} {env : Environment World} {size : Nat} {m next last : Machine World}

/-! ### Histories of flash -/

/-- Flash of a size has come to be what it is by operations on flash. -/
def Chronicled (size : Nat) (m : Machine World) : Prop :=
  ∃ operations, m.flash = Flash.after size operations

namespace Chronicled

theorem edit (chronicled : m.Chronicled size) (flash : next.flash = m.flash) :
    next.Chronicled size := by
  obtain ⟨operations, same⟩ := chronicled
  exact ⟨operations, flash.trans same⟩

/-- More operations make the history longer. -/
theorem extend (chronicled : m.Chronicled size) (more : List Flash.Operation) {flash : Flash}
    (applied : more.foldl Flash.apply m.flash = flash) :
    ({ m with flash } : Machine World).Chronicled size := by
  obtain ⟨operations, same⟩ := chronicled
  refine ⟨operations ++ more, ?_⟩
  rw [Flash.after, List.foldl_append, ← Flash.after, ← same]
  exact applied.symm

theorem load (chronicled : m.Chronicled size) {offset : Nat} {values : List UInt8} {flash : Flash}
    (loads : m.flash.load offset values = .ok flash) :
    ({ m with flash } : Machine World).Chronicled size := by
  apply chronicled.extend [.load offset values]
  rw [List.foldl_cons, Flash.apply, loads]
  rfl

theorem fetch (chronicled : m.Chronicled size) {fetched : Fetched} {flash : Flash}
    (fetches : m.flash.fetch m.pc = .ok (fetched, flash)) :
    ({ m with flash } : Machine World).Chronicled size := by
  apply chronicled.extend [.fetch m.pc]
  rw [List.foldl_cons, Flash.apply, fetches]
  rfl

theorem sound (chronicled : m.Chronicled size) : ∃ bytes, m.flash.Sound size bytes := by
  obtain ⟨operations, same⟩ := chronicled
  rw [same]
  exact ⟨_, Flash.sound_after size operations⟩

end Chronicled

theorem chronicled_new (part : Part) (settings : Settings) (world : World) :
    (new part settings world).Chronicled part.flashSize :=
  ⟨[.rearm], rfl⟩

/-- Whatever is done to flash from outside belongs to its history. -/
theorem keeps_operations_chronicled (operations : List Flash.Operation) :
    Action.Respects (Keeps (Chronicled size))
      (modify fun m => { m with flash := operations.foldl Flash.apply m.flash } :
        Action World Unit) :=
  .modify fun _ chronicled => chronicled.extend operations rfl

theorem flashInvariant_chronicled :
    FlashInvariant (Chronicled size : Machine World → Prop) where
  edit chronicled flash _ _ := chronicled.edit flash
  load chronicled := chronicled.load
  fetch chronicled := chronicled.fetch

section Upholds

variable (upholds : env.Upholds (Chronicled size))
include upholds

/-- A step adds to the history of flash what it does to flash. -/
theorem Chronicled.step (chronicled : m.Chronicled size) :
    ((Machine.step env).run m).2.Chronicled size :=
  flashInvariant_chronicled.step upholds chronicled

/-- Finding out whether to skip may call devices, which may rewrite flash as well. -/
theorem Chronicled.skips (chronicled : m.Chronicled size) (i : Instr) :
    (Machine.skips env i m).2.Chronicled size := by
  have reads (register bit : Nat) : (readIoBit env register bit m).2.Chronicled size :=
    ((flashInvariant_chronicled.accesses upholds).mirrors_readIoBit register bit).keeps.related m
      chronicled
  unfold Machine.skips
  split
  case h_1 => exact chronicled
  case h_2 => exact chronicled
  case h_3 => exact chronicled
  case h_4 a b => exact reads a.toNat b.toNat
  case h_5 a b => exact reads a.toNat b.toNat
  case h_6 => exact chronicled

end Upholds

/-! ### Skips -/

variable (env) in
/-- An instruction that may skip finds out whether it does, and then skips or goes on. -/
theorem run_perform_skip {i : Instr} (skip : i.isSkip = true) (next : Nat) (m : Machine World) :
    (perform env i next).run m =
      let (holds, asked) := skips env i m
      (liftM (skipIf env next holds) : Attempt World Outcome).run asked := by
  unfold Instr.isSkip at skip
  split at skip
  case h_6 => cases skip
  all_goals rfl

/-- However flash came to be what it is, the instruction that it gives at a word of it is the one
that the bytes hold. -/
theorem Chronicled.instr_eq (chronicled : m.Chronicled size) {index : Nat}
    (inside : 2 * index + 1 < size) :
    m.flash.instr (2 * index) = .ok (m.flash.decodeAt index) ∧
      m.flash.segment.bytes.size = size := by
  obtain ⟨bytes, sound⟩ := chronicled.sound
  constructor
  · apply Flash.instr_of_agrees
    · rw [sound.slots]
      omega
    · exact sound.agrees index
  · exact sound.contains.size_eq

/-- However a machine came to be what it is, an instruction that may skip goes on at the following
word for one cycle if it does not skip. If it does, it goes on behind the instruction that flash
gives there, for two cycles if that takes one word and for three if it takes two. Nothing else
changes, other than by reading the bit that decides. -/
theorem skips_go_over_one_instruction {part : Part}
    (upholds : env.Upholds (Chronicled part.flashSize)) (settings : Settings) (world : World)
    (interlude : Interlude env (Chronicled part.flashSize) (new part settings world) m) {i : Instr}
    (skip : i.isSkip = true) :
    (∀ asked, skips env i m = (false, asked) →
      (execute env i).run m = (.ok 1, { asked with pc := following m.pc i })) ∧
    ∀ asked, skips env i m = (true, asked) → following m.pc i % 2 = 0 →
      following m.pc i + 1 < part.flashSize →
      ∃ skipped cycles, asked.flash.instr (following m.pc i) = .ok skipped ∧
        (skipped.size = 2 ∧ cycles = 2 ∨ skipped.size = 4 ∧ cycles = 3) ∧
        (execute env i).run m =
          (.ok cycles, { asked with pc := following m.pc i + skipped.size }) := by
  have reached : m.Chronicled part.flashSize :=
    interlude.keeps (Chronicled.step upholds) (chronicled_new part settings world)
  have performs := run_perform_skip env skip (following m.pc i) m
  constructor
  · intro asked found
    rw [found] at performs
    exact run_execute_of_performed performs
  · intro asked found even inside
    have chronicled : asked.Chronicled part.flashSize := by
      have after := reached.skips upholds i
      rwa [found] at after
    obtain ⟨index, place⟩ : ∃ index, following m.pc i = 2 * index :=
      ⟨following m.pc i / 2, by omega⟩
    rw [place] at inside performs
    obtain ⟨reads, sized⟩ := chronicled.instr_eq inside
    rw [found] at performs
    dsimp only at performs
    rw [Attempt.run_lift, skipIf_of_lt (sized ▸ inside)] at performs
    rw [← place] at performs reads
    refine ⟨asked.flash.decodeAt index, 1 + (asked.flash.decodeAt index).size / 2, reads, ?_,
      run_execute_of_performed performs⟩
    unfold Instr.size
    split
    · exact .inr ⟨rfl, rfl⟩
    · exact .inl ⟨rfl, rfl⟩

/-- A bit of a register is clear, and the word behind the instruction has a probe and a breakpoint.
It was fetched as one that does not exist before it became the first word of a jump. -/
theorem skips_go_over_one_instruction_rewritten :
    let operations : List Flash.Operation :=
      [.load 0 [0x00, 0xFC], .fetch 2, .insertProbe 2 ⟨7⟩, .insertBreakpoint 2,
        .load 2 [0x0C, 0x94, 0x01, 0x00]]
    let start : Machine Unit := new smallPart ⟨.known 0, false, false⟩ ()
    let m := { start with flash := operations.foldl Flash.apply start.flash }
    m.flash.hasBreakpoint 2 = true ∧ m.flash.instr 2 = .ok (.absolute false 1) ∧
      (execute silence (.registerBit .sbrc 0 0)).run m = (.ok 3, { m with pc := 6 }) := by
  intro operations start m
  have interlude : Interlude silence (Chronicled smallPart.flashSize) start m :=
    .single (.act _ (keeps_operations_chronicled operations))
  have holds : skips silence (.registerBit .sbrc 0 0) m = (true, m) := by
    have clear : (!byteBit (m.reg 0) (0 : UInt8).toNat) = true := by decide +kernel
    rw [skips, clear]
  obtain ⟨-, jumps⟩ := skips_go_over_one_instruction (within_silence (R := Keeps _))
    ⟨.known 0, false, false⟩ () interlude (i := .registerBit .sbrc 0 0) rfl
  obtain ⟨skipped, cycles, reads, sizes, ran⟩ :=
    jumps m holds (by decide +kernel) (by decide +kernel)
  have jump : (m.flash.instr 2).toOption = some (.absolute false 1) := by decide +kernel
  have next : following m.pc (.registerBit .sbrc 0 0) = 2 := by decide +kernel
  rw [next] at reads ran
  rw [reads] at jump ⊢
  cases jump
  obtain ⟨one, -⟩ | ⟨-, rfl⟩ := sizes
  · cases one
  · exact ⟨by decide +kernel, rfl, ran⟩

end Machine

end Avr

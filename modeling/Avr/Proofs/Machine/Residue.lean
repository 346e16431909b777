import Avr.Proofs.Machine.FastPath
import Avr.Proofs.Machine.Usage

/-!
Contract: a reset leaves no residue of the run before it.

Owns:
- machines that have been used in any way since they were made;
- equality of everything that comes after a reset, for machines that agree on what a reset keeps;
- a breakpoint that has fired in one run and not in another.
-/

namespace Avr.Machine

variable {World Outside : Type} {view : World → Outside} {m n : Machine World}

/-- What has become of a new machine that was used in any way. -/
inductive Used (view : World → Outside) : Machine World → Prop where
  | of_new (part : Part) (settings : Settings) (world : World) {α : Type} {before : Action World α}
      (usage : Usage view before) : Used view (before (new part settings world)).2

theorem Used.wellFormed (used : Used view m) : m.WellFormed := by
  cases used with
  | of_new part settings world usage =>
      have start := vigilant_new part settings world
      have after := (usage.mirrors.agree _ _
        ⟨rfl, ⟨start.table, start.flash⟩, ⟨start.table, start.flash⟩⟩).accord
      exact ⟨after.left.1, after.left.2⟩

/-- The machines agree on what a reset keeps, within and without, and their memory is filled the same
way by every reset. -/
structure Comparable (view : World → Outside) (m n : Machine World) : Prop extends Kept m n where
  world : view m.world = view n.world
  determined : m.settings.fill.isUnseeded = false

/-- After a reset, nothing that is done with a machine depends on what happened before, apart from
what a reset keeps. It keeps that as it is. -/
theorem reset_leaves_no_residue {env : Environment World} {view : World → Outside}
    (overlooks : env.Overlooks view) {m n : Machine World} (used : Used view m)
    (used' : Used view n) (same : Comparable view m n) :
    (∀ {α : Type} {after : Action World α}, Usage view after →
      let ran := (do reset env; after : Action World α) m
      let ran' := (do reset env; after : Action World α) n
      ran.1 = ran'.1 ∧ ran.2.manifest view = ran'.2.manifest view) ∧
    ∀ machine : Machine World, Kept machine (reset env machine).2 ∧
      (reset env machine).2.world = env.note (.reset machine.cycles) machine.world := by
  refine ⟨fun {α after} usage => ?_, fun machine => ⟨?_, rfl⟩⟩
  · have fresh := same.toKept.reset overlooks same.world used.wellFormed used'.wellFormed
    have agree := usage.mirrors.agree _ _ fresh
    exact ⟨agree.same, agree.accord.shown⟩
  · exact { kept_resetCore machine with }

theorem involved_silence : silence.Involved id where
  note _ _ _ same := same
  readOutside _ _ _ _ _ _ same := ⟨rfl, same⟩
  writeOutside _ _ _ _ _ _ same := same
  notify _ _ := .done _
  readDevice _ := .done _
  writeDevice _ _ := .done _
  readDeviceBit _ _ := .done _
  writeDeviceBit _ _ _ := .done _

/-- A program with a breakpoint on its second instruction. -/
def prepareBreakpoint : Action Unit Unit := do
  let _ ← (loadProgram (Program.ofInstrs (List.replicate 4 (.control .nop)))).run
  let _ ← (attempt fun m => return { m with flash := ← m.flash.insertBreakpoint 2 }).run

theorem usage_prepareBreakpoint : Usage id prepareBreakpoint :=
  .andThen (.loadProgram _) fun _ => .andThen (.edit (.insertBreakpoint 2)) fun _ => .done _

/-- The program runs up to its breakpoint. -/
def runToBreakpoint : Action Unit RunResult := do
  prepareBreakpoint
  run silence 3

/-- The program does not run, but as much time passes. -/
def waitInstead : Action Unit Unit := do
  prepareBreakpoint
  advance silence 1

/-- A machine in front of a breakpoint that has fired, and one in which nothing has been executed,
both run up to that breakpoint after a reset. -/
theorem reset_leaves_no_residue_breakpoint :
    let start := new smallPart ⟨.known 7, false, false⟩ ()
    let m := (runToBreakpoint start).2
    let n := (waitInstead start).2
    let ran := (do reset silence; run silence 3 : Action Unit RunResult) m
    let ran' := (do reset silence; run silence 3 : Action Unit RunResult) n
    Comparable id m n ∧ m.pc ≠ n.pc ∧ m.flash.slots ≠ n.flash.slots ∧
      ran.2.hitBreakpoint = true ∧ ran.1 = ran'.1 ∧ ran.2.manifest id = ran'.2.manifest id := by
  intro start m n ran ran'
  have used : Used id m := .of_new _ _ _ (.andThen usage_prepareBreakpoint fun _ =>
    .run involved_silence 3)
  have used' : Used id n := .of_new _ _ _ (.andThen usage_prepareBreakpoint fun _ =>
    .perform involved_silence (.operates (.advance 1)))
  have same : Comparable id m n :=
    { part := by decide +kernel
      settings := by decide +kernel
      data := by decide +kernel
      io := by decide +kernel
      spm := by decide +kernel
      program := by decide +kernel
      attached := by decide +kernel
      interrupts := by decide +kernel
      clock := by decide +kernel
      probes := by decide +kernel
      stateMachines := by decide +kernel
      world := Subsingleton.elim _ _
      determined := by decide +kernel }
  refine ⟨same, by decide +kernel, by decide +kernel, by decide +kernel, ?_⟩
  exact (reset_leaves_no_residue involved_silence.toOverlooks used used' same).1
    (Usage.run involved_silence 3)

end Avr.Machine

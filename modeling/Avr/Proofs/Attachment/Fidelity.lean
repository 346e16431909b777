import Avr.Proofs.Attachment.Probes
import Avr.Proofs.Attachment.Watches
import Avr.Proofs.Attachment.Wrappers
import Avr.Proofs.Machine.FastPath
import Avr.Proofs.SelfProgramming.Ready

/-!
Contract: watches and probes are kept faithfully behind whatever holds them.

Owns:
- what holds of the watches of a segment, of those of IO registers and of the probes of flash alike.
-/

namespace Avr.Machine

open Avr.Attaching Avr.Io Avr.Memory

/-- What is attached is kept as in plain lists, whatever else is done in between.

A segment has a table of watches exactly while one of its lists has an entry, a register is wrapped
exactly while its own list has one, and so is a slot, but for a breakpoint. Registers are never
wrapped twice. Bytes, machines and instructions are what they are without the attached. -/
theorem attached_is_kept_faithfully {World : Type} :
    (∀ name bytes blank reporter (history : List Segment.Operation),
      let start : Segment := ⟨name, bytes, blank, none, reporter⟩
      let final := Segment.watching.run start history
      ListsKept Segment.watching start history ∧
        (final.watches.isSome = true ↔ ∃ address, Segment.watching.lists final address ≠ []) ∧
        final.bytes = history.foldl Segment.bytesAfter bytes) ∧
    (∀ part settings (world : World) {α : Type} (act : Action World α),
      Deed Tends (fun _ => True) (fun _ => True) act → ∀ history : List IoOperation,
        let start := (act (new part settings world)).2
        let final := ioWatching.run start history
        ListsKept ioWatching start history ∧
          (∀ register, (final.ioWatches? register).isSome = true ↔
            ioWatching.lists final register ≠ []) ∧
          let layered := history.foldl Layered.apply (start.io.map Layered.ofRegister)
          layered = final.io.map Layered.ofRegister ∧ ∀ register ∈ layered, register.depth ≤ 1) ∧
    ∀ size (history : List Flash.Operation),
      let final := Flash.after size history
      let unprobed := Flash.after size (Flash.probing.others history)
      ListsKept Flash.probing (Flash.new size) history ∧
        (∀ index, index < size / 2 → (Flash.slotAttached (final.slot index) = true ↔
          Flash.probing.lists final (2 * index) ≠ [] ∨
            Flash.breaksAt (2 * index) history = true)) ∧
        final.segment = unprobed.segment ∧
        ∀ address, final.instr address = unprobed.instr address := by
  refine ⟨?segments, ?registers, ?flash⟩
  case segments =>
    intro name bytes blank reporter history start final
    have tidy : start.TidyTable := ⟨nofun, nofun⟩
    have after : final.TidyTable := Segment.faithful_watching.tidy_run tidy history
    exact ⟨Segment.faithful_watching.kept tidy history, after.isSome_watches,
      Segment.bytes_run start history⟩
  case registers =>
    intro part settings world α act deed history start final
    have tidy : start.TidyIo := tidyIo_of_deed settings world deed
    have after : final.TidyIo := faithful_ioWatching.tidy_run tidy history
    exact ⟨faithful_ioWatching.kept tidy history, after.isSome_ioWatches?,
      Layered.foldl_apply start history, Layered.depth_foldl_apply start history⟩
  case flash =>
    intro size history final unprobed
    exact ⟨Flash.faithful_probing.kept (Flash.settled_new size) history,
      fun index inside => Flash.slotAttached_after size history inside,
      Flash.after_others size history⟩

/-- A wrapped register is replaced by one that had a watch elsewhere, which does not come with it; a
probe that is attached twice and removed once keeps the wrapper of its slot. -/
theorem attached_is_kept_faithfully_replaced :
    let attach : Action Unit Unit := modify fun m => m.applyIo (.insertWatch 5 ⟨1⟩)
    let start := (attach (new smallPart ⟨.known 0, false, false⟩ ())).2
    let replaced : List IoOperation :=
      [.insertWatch 5 ⟨2⟩, .install 5 (.watched .reserved [⟨9⟩]), .removeWatch 5 ⟨1⟩,
        .removeWatch 5 ⟨9⟩]
    let final := ioWatching.run start replaced
    let probed : List Flash.Operation :=
      [.insertProbe 0 ⟨7⟩, .set 0 0x95, .insertProbe 0 ⟨7⟩, .removeProbe 0 ⟨7⟩]
    ioWatching.lists final 5 = [⟨2⟩] ∧ (final.ioWatches? 5).isSome = true ∧
      Flash.slotAttached ((Flash.after 4 probed).slot 0) = true := by
  intro attach start replaced final probed
  have deed : Deed Tends (fun _ => True) (fun _ => True) attach :=
    .aside attach fun _ => .operation (.insertWatch 5 ⟨1⟩)
  obtain ⟨kept, wrapped, -⟩ := attached_is_kept_faithfully.2.1 smallPart ⟨.known 0, false, false⟩
    () attach deed replaced
  obtain ⟨-, attached, -⟩ := (@attached_is_kept_faithfully Unit).2.2 4 probed
  have lists : ioWatching.lists final 5 = [⟨2⟩] := by
    rw [kept.lists]
    decide +kernel
  have probes : Flash.probing.lists (Flash.after 4 probed) (2 * 0) ≠ [] := by decide +kernel
  refine ⟨lists, (wrapped 5).mpr ?_, (attached 0 (by decide)).mpr (.inl probes)⟩
  rw [lists]
  exact List.cons_ne_nil _ _

end Avr.Machine

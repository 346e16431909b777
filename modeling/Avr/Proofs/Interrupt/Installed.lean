import Avr.Proofs.Interrupt.Masked

/-!
Contract: installing flag pairs brings them in step with the interrupt table.

Owns:
- machines that pairs can be installed on;
- what the installation of one pair does, and that of any number of them;
- new machines.

Both registers start out cleared, so the vectors have to be neither posted nor enabled.
-/

namespace Avr.Machine

open Avr.Interrupt Avr.Io

variable {World : Type} {pairs done : List FlagPair} {pair : FlagPair} {m start next : Machine World}

/-- A machine that has no pairs yet, nor probes of interrupts, and on which the vectors of the pairs
are neither posted nor enabled. -/
structure Fit (pairs : List FlagPair) (m : Machine World) : Prop where
  layout : Layout m.part pairs
  table : m.interrupts.table.Sound
  slots : m.interrupts.table.size ≤ m.interrupts.notifications.length
  quiet : ∀ vector, m.interrupts.probesFor vector = []
  apart : SpmApart pairs m
  clear : ∀ register (half : Half) value pair, m.kindAt register ≠ some (half.kind value pair)
  silent : ∀ vector pair bit sticky,
    m.interrupts.notification? vector ≠ some (.flag pair bit sticky)
  rests : ∀ {pair bit vector}, Wired pairs pair bit vector →
    ∀ half : Half, half.drives m.interrupts.table vector = false

/-! ### One pair -/

/-- The machine with other notifications. -/
def notifying (m : Machine World) (notifications : List (Option Notification)) : Machine World :=
  { m with interrupts := { m.interrupts with notifications } }

theorem exists_of_registerNotification {vector : Nat} {notification : Notification}
    (slots : m.interrupts.table.size ≤ m.interrupts.notifications.length)
    (ran : (registerNotification vector notification).run m = (.ok (), next)) :
    vector < m.interrupts.table.size ∧ ∃ notifications,
      next = m.notifying notifications ∧
        m.interrupts.notifications.length = notifications.length ∧
        ∀ other, next.interrupts.notification? other =
          if vector = other then some notification else m.interrupts.notification? other := by
  rw [registerNotification, Attempt.run_attempt] at ran
  by_cases inside : vector < m.interrupts.table.size
  · have registers : m.interrupts.register vector notification =
        .ok { m.interrupts with
          notifications := m.interrupts.notifications.set vector (some notification) } := by
      simp [Controller.register, Table.check, inside, Bind.bind, Except.bind, Pure.pure, Except.pure]
    rw [registers] at ran
    cases ran
    refine ⟨inside, _, rfl, by simp, fun other => ?_⟩
    have slot : vector < m.interrupts.notifications.length := Nat.lt_of_lt_of_le inside slots
    simp only [Controller.notification?, List.getElem?_set]
    split
    · next same =>
      subst same
      simp
    · rfl
  · have refuses : m.interrupts.register vector notification =
        .error (.invalidInterrupt vector m.interrupts.table.size) := by
      simp [Controller.register, Table.check, inside, Bind.bind, Except.bind]
    rw [refuses] at ran
    cases ran

/-- Notifications of a pair replace those of its vectors. -/
theorem exists_of_registerAll (pair : FlagPair) (entries : List (Nat × Nat))
    (slots : m.interrupts.table.size ≤ m.interrupts.notifications.length)
    (ran : (entries.forM fun (bit, vector) =>
      registerNotification vector (.flag pair bit (pair.isSticky bit))).run m = (.ok (), next)) :
    ∃ notifications, next = m.notifying notifications ∧
      m.interrupts.notifications.length = notifications.length ∧
      (∀ entry ∈ entries, entry.2 < m.interrupts.table.size) ∧
      ∀ other, (∃ bit, (bit, other) ∈ entries ∧
          next.interrupts.notification? other = some (.flag pair bit (pair.isSticky bit))) ∨
        (∀ bit, (bit, other) ∉ entries) ∧
          next.interrupts.notification? other = m.interrupts.notification? other := by
  induction entries generalizing m with
  | nil =>
      cases ran
      exact ⟨_, rfl, rfl, nofun, fun other => .inr ⟨nofun, rfl⟩⟩
  | cons entry rest inductionHypothesis =>
      obtain ⟨bit, vector⟩ := entry
      change (registerNotification vector (.flag pair bit (pair.isSticky bit)) >>= fun _ =>
        rest.forM fun (bit, vector) =>
          registerNotification vector (.flag pair bit (pair.isSticky bit))).run m = _ at ran
      obtain ⟨_, middle, first, ran⟩ := Attempt.run_bind_eq_ok ran
      obtain ⟨inside, registered, rfl, length, notified⟩ :=
        exists_of_registerNotification slots first
      obtain ⟨notifications, rfl, length', insides, told⟩ :=
        inductionHypothesis (m := m.notifying registered)
          (Nat.le_trans slots (Nat.le_of_eq length)) ran
      refine ⟨notifications, rfl, length.trans length', ?_, fun other => ?_⟩
      · rintro entry found
        rcases List.mem_cons.mp found with rfl | later
        · exact inside
        · exact insides entry later
      · rcases told other with ⟨bit', later, tells⟩ | ⟨absent, tells⟩
        · exact .inl ⟨bit', List.mem_cons_of_mem _ later, tells⟩
        · rw [tells, notified]
          split
          · next same =>
            subst same
            exact .inl ⟨bit, List.mem_cons_self, rfl⟩
          · next different =>
            refine .inr ⟨fun bit' found => ?_, rfl⟩
            rcases List.mem_cons.mp found with here | later
            · cases here
              exact different rfl
            · exact absent bit' later

theorem of_installRegister {register : Nat} {kind : Kind}
    (ran : (installRegister register kind).run m = (.ok (), next)) :
    (∃ io, next = { m with io }) ∧
      ∀ other, next.kindAt other = if register = other then some kind else m.kindAt other := by
  rw [installRegister, Attempt.run_attempt] at ran
  split at ran
  · next next' installs =>
    cases ran
    split at installs
    · next inside =>
      cases installs
      refine ⟨⟨_, rfl⟩, fun other => ?_⟩
      simp only [kindAt, Array.getElem?_modify]
      split
      · next same =>
        subst same
        simp [inside]
      · rfl
    · cases installs
  · cases ran

/-- What the installation of a pair comes to. -/
structure Installs (pair : FlagPair) (m next : Machine World) : Prop where
  same : ∃ notifications io, next = { m.notifying notifications with io } ∧
    m.interrupts.notifications.length = notifications.length
  kindAt : ∀ register, next.kindAt register =
    if pair.maskRegister = register then some (.mask 0 pair)
    else if pair.flagRegister = register then some (.flags 0 pair)
    else m.kindAt register
  inside : ∀ entry ∈ pair.mapped, entry.2 < m.interrupts.table.size
  told : ∀ other, (∃ bit, (bit, other) ∈ pair.mapped ∧
      next.interrupts.notification? other = some (.flag pair bit (pair.isSticky bit))) ∨
    (∀ bit, (bit, other) ∉ pair.mapped) ∧
      next.interrupts.notification? other = m.interrupts.notification? other

theorem installs_of_run (slots : m.interrupts.table.size ≤ m.interrupts.notifications.length)
    (ran : (installPair pair).run m = (.ok (), next)) : Installs pair m next := by
  obtain ⟨_, registered, registers, ran⟩ := Attempt.run_bind_eq_ok ran
  obtain ⟨notifications, rfl, length, inside, told⟩ := exists_of_registerAll pair _ slots registers
  obtain ⟨_, flagged, flags, masks⟩ := Attempt.run_bind_eq_ok ran
  obtain ⟨⟨_, rfl⟩, flags⟩ := of_installRegister flags
  obtain ⟨⟨io, rfl⟩, masks⟩ := of_installRegister masks
  refine ⟨⟨notifications, io, rfl, length⟩, fun register => ?_, inside, told⟩
  rw [masks, flags]
  rfl

/-! ### All pairs -/

/-- The pairs that are done are installed on what was the machine `start`. -/
structure Installed (done : List FlagPair) (start m : Machine World) : Prop where
  same : ∃ notifications io, m = { start.notifying notifications with io } ∧
    start.interrupts.notifications.length = notifications.length
  kinds : ∀ pair ∈ done, ∀ half : Half, m.kindAt (half.register pair) = some (half.kind 0 pair)
  others : ∀ register, m.kindAt register = start.kindAt register ∨ ∃ pair ∈ done, ∃ half : Half,
    register = half.register pair ∧ m.kindAt register = some (half.kind 0 pair)
  inside : ∀ {pair bit vector}, Wired done pair bit vector → vector < start.interrupts.table.size
  heard : ∀ {pair bit vector}, Wired done pair bit vector →
    m.interrupts.notification? vector = some (.flag pair bit (pair.isSticky bit))
  told : ∀ vector, m.interrupts.notification? vector = start.interrupts.notification? vector ∨
    ∃ pair bit, Wired done pair bit vector ∧
      m.interrupts.notification? vector = some (.flag pair bit (pair.isSticky bit))

theorem Installed.nil (start : Machine World) : Installed [] start start where
  same := ⟨_, _, rfl, rfl⟩
  kinds := nofun
  others _ := .inl rfl
  inside wired := nomatch wired.1
  heard wired := nomatch wired.1
  told _ := .inl rfl

theorem Installs.kindAt_half (installs : Installs pair m next) (layout : Layout start.part pairs)
    (member : pair ∈ pairs) (half : Half) :
    next.kindAt (half.register pair) = some (half.kind 0 pair) := by
  rw [installs.kindAt]
  cases half with
  | mask => exact if_pos rfl
  | flags =>
      have different : pair.maskRegister ≠ pair.flagRegister := fun same => by
        cases (layout.registers pair member pair member .mask .flags same).2
      rw [Half.register, if_neg different, if_pos rfl]
      rfl

theorem Installs.kindAt_other (installs : Installs pair m next) {register : Nat}
    (other : ∀ half : Half, half.register pair ≠ register) :
    next.kindAt register = m.kindAt register :=
  (installs.kindAt register).trans ((if_neg (other .mask)).trans (if_neg (other .flags)))

theorem Installed.cons (installed : Installed done start m) (fit : Fit pairs start)
    (member : pair ∈ pairs) (among : done ⊆ pairs) (installs : Installs pair m next) :
    Installed (pair :: done) start next where
  same := by
    obtain ⟨_, _, rfl, length⟩ := installed.same
    obtain ⟨_, _, rfl, length'⟩ := installs.same
    exact ⟨_, _, rfl, length.trans length'⟩
  kinds pair' found half := by
    rcases List.mem_cons.mp found with rfl | before
    · exact installs.kindAt_half fit.layout member half
    · by_cases same : pair' = pair
      · exact same ▸ installs.kindAt_half fit.layout member half
      · refine (installs.kindAt_other fun half' register => same ?_).trans
          (installed.kinds pair' before half)
        exact (fit.layout.registers pair member pair' (among before) half' half register).1.symm
  others register := by
    by_cases own : ∃ half : Half, half.register pair = register
    · obtain ⟨half, rfl⟩ := own
      exact .inr ⟨pair, List.mem_cons_self, half, rfl,
        installs.kindAt_half fit.layout member half⟩
    · rw [installs.kindAt_other fun half register => own ⟨half, register⟩]
      refine (installed.others register).imp id fun ⟨pair', before, rest⟩ => ?_
      exact ⟨pair', List.mem_cons_of_mem _ before, rest⟩
  inside {pair' bit vector} wired := by
    obtain ⟨found, mapped⟩ := wired
    rcases List.mem_cons.mp found with rfl | before
    · obtain ⟨_, _, rfl, -⟩ := installed.same
      exact installs.inside _ mapped
    · exact installed.inside ⟨before, mapped⟩
  heard {pair' bit vector} wired := by
    obtain ⟨found, mapped⟩ := wired
    have known : pair' ∈ pairs := by
      rcases List.mem_cons.mp found with rfl | before
      · exact member
      · exact among before
    rcases installs.told vector with ⟨bit', mapped', tells⟩ | ⟨absent, tells⟩
    · obtain ⟨rfl, rfl⟩ := fit.layout.vectors ⟨member, mapped'⟩ ⟨known, mapped⟩
      exact tells
    · rcases List.mem_cons.mp found with rfl | before
      · exact absurd mapped (absent bit)
      · exact tells.trans (installed.heard ⟨before, mapped⟩)
  told vector := by
    rcases installs.told vector with ⟨bit, mapped, tells⟩ | ⟨-, tells⟩
    · exact .inr ⟨pair, bit, ⟨List.mem_cons_self, mapped⟩, tells⟩
    · rw [tells]
      refine (installed.told vector).imp id fun ⟨pair', bit, ⟨before, mapped⟩, rest⟩ => ?_
      exact ⟨pair', bit, ⟨List.mem_cons_of_mem _ before, mapped⟩, rest⟩

theorem Installed.of_run (fit : Fit pairs start) (rest : List FlagPair) (among : rest ⊆ pairs)
    (installed : Installed done start m) (among' : done ⊆ pairs)
    (ran : (rest.forM installPair).run m = (.ok (), next)) :
    Installed (rest.reverse ++ done) start next := by
  induction rest generalizing done m with
  | nil =>
      cases ran
      exact installed
  | cons pair rest inductionHypothesis =>
      obtain ⟨_, middle, first, ran⟩ := Attempt.run_bind_eq_ok ran
      have slots : m.interrupts.table.size ≤ m.interrupts.notifications.length := by
        obtain ⟨_, _, rfl, length⟩ := installed.same
        exact Nat.le_trans fit.slots (Nat.le_of_eq length)
      have member : pair ∈ pairs := among List.mem_cons_self
      have more := installed.cons fit member among' (installs_of_run slots first)
      rw [List.reverse_cons, List.append_assoc]
      exact inductionHypothesis (fun _ later => among (List.mem_cons_of_mem _ later)) more
        (List.cons_subset.mpr ⟨member, among'⟩) ran

theorem Installed.masked (installed : Installed done start m) (fit : Fit pairs start)
    (all : ∀ pair, pair ∈ done ↔ pair ∈ pairs) : Masked pairs m := by
  have wires {pair : FlagPair} {bit vector : Nat} :
      Wired done pair bit vector ↔ Wired pairs pair bit vector :=
    and_congr_left' (all pair)
  have others {register : Nat} {kind : Kind} (found : m.kindAt register = some kind) :
      start.kindAt register = some kind ∨ ∃ pair ∈ pairs, ∃ half : Half,
        register = half.register pair ∧ kind = half.kind 0 pair := by
    rcases installed.others register with same | ⟨pair, before, half, register, kinds⟩
    · exact .inl (same.symm.trans found)
    · exact .inr ⟨pair, (all pair).mp before, half, register,
        Option.some.inj (found.symm.trans kinds)⟩
  obtain ⟨notifications, io, same, -⟩ := installed.same
  have part : m.part = start.part := by rw [same]; rfl
  have table : m.interrupts.table = start.interrupts.table := by rw [same]; rfl
  exact
    { layout := part ▸ fit.layout
      table := table ▸ fit.table
      quiet := by
        rw [same]
        exact fit.quiet
      apart := by
        refine fit.apart.imp (fun unwired => part ▸ unwired) fun ⟨absent, registers⟩ => ?_
        refine ⟨by rw [same]; exact absent, fun register found => ?_⟩
        rcases others found with before | ⟨pair, -, half, -, kinds⟩
        · exact registers register before
        · cases half <;> cases kinds
      only := by
        intro register half value pair found
        rcases others found with before | ⟨pair', member, half', rfl, kinds⟩
        · exact absurd before (fit.clear register half value pair)
        · obtain ⟨rfl, -, rfl⟩ := Half.kind_injective kinds
          exact ⟨member, rfl⟩
      inside := fun wired => table ▸ installed.inside (wires.mpr wired)
      heard := fun wired => installed.heard (wires.mpr wired)
      notified := by
        intro vector pair bit sticky tells
        rcases installed.told vector with before | ⟨pair', bit', wired, now⟩
        · exact absurd (before.symm.trans tells) (fit.silent vector pair bit sticky)
        · cases now.symm.trans tells
          exact ⟨wires.mp wired, rfl⟩
      drives := by
        refine fun pair member half => ⟨0, installed.kinds pair ((all pair).mpr member) half, ?_⟩
        intro bit vector mapped _
        rw [table, fit.rests ⟨member, mapped⟩ half]
        simp [byteBit] }

/-- Pairs that were installed on a machine fit for them are in step with its table. -/
theorem masked_of_installAll (fit : Fit pairs start)
    (ran : (pairs.forM installPair).run start = (.ok (), m)) : Masked pairs m := by
  have installed := Installed.of_run fit pairs (List.Subset.refl _) (Installed.nil start)
    (List.nil_subset _) ran
  exact installed.masked fit fun pair => by simp

/-! ### New machines -/

def EveryKind (Q : Kind → Prop) (io : Array Register) : Prop :=
  ∀ (register : Nat) kind, io[register]?.map Register.kind = some kind → Q kind

theorem EveryKind.set {Q : Kind → Prop} {io : Array Register} (every : EveryKind Q io) {kind : Kind}
    (own : Q kind) (register : Nat) : EveryKind Q (io.setIfInBounds register (.bare kind)) := by
  intro other kind' found
  rw [Array.getElem?_setIfInBounds] at found
  split at found
  · split at found
    · cases found
      exact own
    · cases found
  · exact every other kind' found

theorem EveryKind.replicate {Q : Kind → Prop} {kind : Kind} (own : Q kind) (count : Nat) :
    EveryKind Q (Array.replicate count (.bare kind)) := by
  intro register kind' found
  rw [Array.getElem?_replicate] at found
  split at found
  · cases found
    exact own
  · cases found

/-- A register that is no half of a pair, and controls self-programming only if that is possible. -/
def Simple (reprogrammable : Bool) (kind : Kind) : Prop :=
  (∀ (half : Half) value pair, kind ≠ half.kind value pair) ∧
    (kind = .device .selfProgramming → reprogrammable = true)

theorem simple_coreRegisters (part : Part) (reprogrammable : Bool) :
    EveryKind (Simple reprogrammable) (coreRegisters part reprogrammable) := by
  have own {kind : Kind} (stores : ∀ (half : Half) value pair, kind ≠ half.kind value pair)
      (other : kind ≠ .device .selfProgramming) : Simple reprogrammable kind :=
    ⟨stores, fun same => absurd same other⟩
  have plain : Simple reprogrammable (.plain 0) := own (by rintro (_ | _) _ _ ⟨⟩) nofun
  have status : Simple reprogrammable .status := own (by rintro (_ | _) _ _ ⟨⟩) nofun
  have low : Simple reprogrammable (.stackLow 0) := own (by rintro (_ | _) _ _ ⟨⟩) nofun
  have high : Simple reprogrammable (.stackHigh 0) := own (by rintro (_ | _) _ _ ⟨⟩) nofun
  have core := (((EveryKind.replicate plain (min part.ioSize 256)).set status
    part.statusRegister).set low part.stackLow).set high part.stackHigh
  rw [coreRegisters]
  split
  · next able => exact core.set ⟨by rintro (_ | _) _ _ ⟨⟩, fun _ => able⟩ part.spmControl
  · exact core

theorem EveryKind.setIoStored {reprogrammable : Bool}
    (every : EveryKind (Simple reprogrammable) m.io) (register : Nat) (value : UInt8) :
    EveryKind (Simple reprogrammable) (m.setIoStored register value).io := by
  intro other kind found
  rcases exists_kindAt_of_setIoStored found with before | ⟨old, before, stores⟩
  · exact every other kind before
  · obtain ⟨plain, control⟩ := every other old before
    obtain ⟨device, half⟩ := kind_of_store stores
    refine ⟨fun half' value' pair same => ?_, fun same => control (device _ same)⟩
    obtain ⟨old', same'⟩ := half half' value' pair same
    exact plain half' old' pair same'

/-- A new machine is fit for pairs if self-programming posts none of their vectors. -/
theorem fit_new {part : Part} (layout : Layout part pairs) (settings : Settings) (world : World)
    (apart : (∀ pair bit, ¬ Wired pairs pair bit part.spmReady) ∨
      settings.reprogrammable = false) : Fit pairs (new part settings world) := by
  have every : EveryKind (Simple settings.reprogrammable) (new part settings world).io :=
    EveryKind.setIoStored (EveryKind.setIoStored (simple_coreRegisters part _) _ _) _ _
  exact
    { layout := layout
      table := Table.sound_new _
      slots := Nat.le_of_eq (List.length_replicate ..).symm
      quiet := fun vector => by
        change [] ++ (List.replicate _ []).getD vector [] = []
        simp only [List.nil_append, List.getD_eq_getElem?_getD, List.getElem?_replicate]
        split <;> rfl
      apart := by
        refine apart.imp id fun fixed => ⟨if_neg (by simp [fixed]), fun register found => ?_⟩
        exact Bool.false_ne_true (fixed.symm.trans ((every register _ found).2 rfl))
      clear := fun register half value pair found =>
        (every register _ found).1 half value pair rfl
      silent := fun vector pair bit sticky => by
        change ((List.replicate _ none)[vector]?).join ≠ _
        rw [List.getElem?_replicate]
        split <;> nofun
      rests := fun {pair bit vector} _ half => by
        change half.drives (Table.new part.interruptCount) vector = false
        cases half <;>
          simp [Half.drives, Table.isPosted, Table.isEnabled, Table.holds, Table.new] }

end Avr.Machine

import Avr.Machine.IoAccess
import Avr.Machine.Reset
import Avr.Proofs.Attachment.Lists
import Avr.Proofs.Machine.Alongside
import Avr.Proofs.SelfProgramming.Deed

/-!
Contract: the watches of IO registers, kept in a wrapper of each register.

Owns:
- the list of one register, and that a wrapper is there exactly while the list has an entry;
- new machines and all that comes of them, on which no wrapper is empty;
- the watches of a machine as a faithful container, under which registers are installed;
- registers that may be wrapped more than once, which they never are.
-/

namespace Avr

namespace Io.Register

def list (register : Register) : HandleList :=
  register.watches?.getD []

/-- A wrapper has at least one watch. -/
def Needed (register : Register) : Prop :=
  register.watches? ≠ some []

theorem Needed.isSome_watches? {register : Register} (needed : register.Needed) :
    register.watches?.isSome = true ↔ register.list ≠ [] := by
  cases register with
  | bare kind => simp [watches?, list]
  | watched kind watches => simpa [watches?, list, Needed] using needed

variable (register : Register) (watch : Handle)

theorem list_insertWatch : (register.insertWatch watch).list = register.list ++ [watch] := by
  cases register <;> rfl

theorem needed_insertWatch : (register.insertWatch watch).Needed := by
  cases register <;> simp [Needed, insertWatch, watches?, HandleList.insert]

@[simp] theorem kind_insertWatch : (register.insertWatch watch).kind = register.kind := by
  cases register <;> rfl

/-- The first entry goes, and the wrapper with the last. -/
theorem removeWatch_of_mem {register : Register} {watch : Handle}
    (member : watch ∈ register.list) :
    (register.removeWatch watch).2 = true ∧
      (register.removeWatch watch).1.list = register.list.erase watch ∧
      (register.removeWatch watch).1.Needed := by
  cases register with
  | bare kind => cases member
  | watched kind watches =>
      have found : watches.contains watch = true := List.contains_iff_mem.mpr member
      simp only [removeWatch, HandleList.remove, found, if_true]
      refine ⟨trivial, ?_⟩
      by_cases last : watches.erase watch = []
      · simp [last, list, watches?, Needed]
      · simp [last, list, watches?, Needed]

theorem removeWatch_of_notMem {register : Register} {watch : Handle}
    (missing : watch ∉ register.list) : register.removeWatch watch = (register, false) := by
  cases register with
  | bare kind => rfl
  | watched kind watches =>
      have absent : ¬ watches.contains watch = true := mt List.contains_iff_mem.mp missing
      simp only [removeWatch, HandleList.remove, absent]
      rfl

@[simp] theorem kind_removeWatch : (register.removeWatch watch).1.kind = register.kind := by
  cases register with
  | bare kind => rfl
  | watched kind watches =>
      simp only [removeWatch]
      split
      · split <;> rfl
      · rfl

theorem list_withKind (kind : Kind) : (register.withKind kind).list = register.list := by
  rw [list, watches?_withKind, list]

end Io.Register

namespace Machine

open Attaching Interrupt Io

variable {World : Type} {m next : Machine World}

/-! ### Operations on IO registers -/

/-- What is done with IO registers from outside. -/
inductive IoOperation where
  | insertWatch (register : Nat) (watch : Handle)
  | removeWatch (register : Nat) (watch : Handle)
  /-- Replace a register; of a wrapped one, what is under its wrapper is installed. -/
  | install (register : Nat) (new : Register)
deriving DecidableEq, Repr

def applyIo (m : Machine World) : IoOperation → Machine World
  | .insertWatch register watch => ((insertIoWatch register watch).run m).2
  | .removeWatch register watch => (m.removeIoWatch register watch).1
  | .install register new => ((installRegister register new.kind).run m).2

/-- The watches of the IO registers of a machine. -/
def ioWatching : Container (Machine World) IoOperation where
  apply := applyIo
  answer m operation :=
    match operation with
    | .insertWatch register watch => .ofResult ((insertIoWatch register watch).run m).1
    | .removeWatch register watch => .removed (m.removeIoWatch register watch).2
    | .install register new => .ofResult ((installRegister register new.kind).run m).1
  call?
    | .insertWatch register watch => some (.insert register watch)
    | .removeWatch register watch => some (.remove register watch)
    | .install _ _ => none
  lists m register := (m.ioWatches? register).getD []
  refusal m := beyond m.io.size noRegister
  bare m := { m with io := m.io.map Register.stripped }

/-- No wrapper of an IO register is empty. -/
def TidyIo (m : Machine World) : Prop :=
  ∀ register ∈ m.io, register.Needed

theorem lists_ioWatching (m : Machine World) (register : Nat) :
    ioWatching.lists m register = (m.io[register]?.map Register.list).getD [] := by
  change (m.io[register]?.bind Register.watches?).getD [] = _
  cases m.io[register]? <;> rfl

namespace IoOperation

/-- The number of the register that an operation is about. -/
def register : IoOperation → Nat
  | insertWatch register _ | removeWatch register _ | install register _ => register

/-- What an operation makes of its register. -/
def change : IoOperation → Register → Register
  | insertWatch _ watch, old => old.insertWatch watch
  | removeWatch _ watch, old => (old.removeWatch watch).1
  | install _ new, old => old.withKind new.kind

theorem needed_change (operation : IoOperation) {old : Register} (needed : old.Needed) :
    (operation.change old).Needed := by
  cases operation with
  | insertWatch _ watch => exact old.needed_insertWatch watch
  | removeWatch _ watch =>
      by_cases member : watch ∈ old.list
      · exact (Register.removeWatch_of_mem member).2.2
      · rwa [change, Register.removeWatch_of_notMem member]
  | install _ new => rwa [change, Register.Needed, Register.watches?_withKind]

end IoOperation

theorem run_insertIoWatch (m : Machine World) (register : Nat) (watch : Handle) :
    (insertIoWatch register watch).run m =
      if register < m.io.size then
        (.ok (), { m with io := m.io.modify register (Register.insertWatch · watch) })
      else (.error (noRegister register), m) := by
  rw [insertIoWatch, Attempt.run_attempt]
  split <;> split <;> simp_all

theorem run_installRegister (m : Machine World) (register : Nat) (kind : Kind) :
    (installRegister register kind).run m =
      if register < m.io.size then
        (.ok (), { m with io := m.io.modify register (Register.withKind · kind) })
      else (.error (noRegister register), m) := by
  rw [installRegister, Attempt.run_attempt]
  split <;> split <;> simp_all

def withIo (m : Machine World) (io : Array Register) : Machine World :=
  { m with io }

/-- An operation changes its register alone, and nothing if there is none. -/
theorem applyIo_eq (m : Machine World) (operation : IoOperation) :
    m.applyIo operation = m.withIo (m.io.modify operation.register operation.change) := by
  cases operation with
  | insertWatch register watch =>
      rw [applyIo, run_insertIoWatch]
      split
      · rfl
      · next outside => exact congrArg m.withIo (modify_outside outside _).symm
  | removeWatch register watch =>
      rw [applyIo, removeIoWatch]
      split
      · next missing =>
        have outside : ¬ register < m.io.size :=
          Nat.not_lt.mpr (Array.getElem?_eq_none_iff.mp missing)
        exact congrArg m.withIo (modify_outside outside _).symm
      · next old found =>
        exact congrArg m.withIo
          (modify_inside found (IoOperation.removeWatch register watch).change).symm
  | install register new =>
      rw [applyIo, run_installRegister]
      split
      · rfl
      · next outside => exact congrArg m.withIo (modify_outside outside _).symm

/-! ### Watches against plain lists -/

theorem TidyIo.modify (tidy : m.TidyIo) (register : Nat) {change : Register → Register}
    (keeps : ∀ old, old.Needed → (change old).Needed) :
    (m.withIo (m.io.modify register change)).TidyIo := by
  intro new member
  obtain ⟨index, found⟩ := Array.mem_iff_getElem?.mp member
  change (m.io.modify register change)[index]? = some new at found
  rw [Array.getElem?_modify] at found
  split at found
  · obtain ⟨old, before, rfl⟩ := Option.map_eq_some_iff.mp found
    exact keeps old (tidy old (Array.mem_of_getElem? before))
  · exact tidy new (Array.mem_of_getElem? found)

theorem TidyIo.applyIo (tidy : m.TidyIo) (operation : IoOperation) :
    (m.applyIo operation).TidyIo := by
  rw [applyIo_eq]
  exact tidy.modify operation.register fun old => operation.needed_change

/-- A register is wrapped exactly while its list has an entry. -/
theorem TidyIo.isSome_ioWatches? (tidy : m.TidyIo) (register : Nat) :
    (m.ioWatches? register).isSome = true ↔ ioWatching.lists m register ≠ [] := by
  rw [lists_ioWatching, ioWatches?]
  cases found : m.io[register]? with
  | none => simp
  | some old => exact (tidy old (Array.mem_of_getElem? found)).isSome_watches?

theorem lists_of_found {register : Nat} {old : Register} (found : m.io[register]? = some old) :
    ioWatching.lists m register = old.list := by
  rw [lists_ioWatching, found]
  rfl

/-- What an operation makes of the list of its register is what it makes of the register. -/
theorem lists_applyIo (operation : IoOperation) {old : Register}
    (found : m.io[operation.register]? = some old) :
    ioWatching.lists (m.applyIo operation) =
      Function.update (ioWatching.lists m) operation.register (operation.change old).list := by
  funext other
  rw [applyIo_eq, lists_ioWatching, Function.update_apply]
  change ((m.io.modify _ _)[other]?.map _).getD [] = _
  rw [Array.getElem?_modify]
  by_cases here : other = operation.register
  · rw [if_pos here.symm, if_pos here, here, found]
    rfl
  · rw [if_neg (Ne.symm here), if_neg here, lists_ioWatching]

/-- A register that is installed takes over the watches of the one it replaces. -/
theorem lists_install (m : Machine World) (register : Nat) (new : Register) :
    ioWatching.lists (m.applyIo (.install register new)) = ioWatching.lists m := by
  cases found : m.io[register]? with
  | none =>
      have outside : ¬ register < m.io.size :=
        Nat.not_lt.mpr (Array.getElem?_eq_none_iff.mp found)
      have same : m.applyIo (.install register new) = m :=
        (applyIo_eq m _).trans (congrArg m.withIo (modify_outside outside _))
      exact congrArg ioWatching.lists same
  | some old =>
      rw [← Function.update_eq_self register (ioWatching.lists m), lists_of_found found]
      exact (lists_applyIo (.install register new) found).trans
        (congrArg _ (old.list_withKind new.kind))

theorem exists_of_mem_lists {register : Nat} {watch : Handle}
    (member : watch ∈ ioWatching.lists m register) : ∃ old, m.io[register]? = some old := by
  rw [lists_ioWatching] at member
  cases found : m.io[register]? with
  | none =>
      rw [found] at member
      cases member
  | some old => exact ⟨old, rfl⟩

theorem removeIoWatch_of_notMem {register : Nat} {watch : Handle}
    (missing : watch ∉ ioWatching.lists m register) :
    m.removeIoWatch register watch = (m, false) := by
  rw [removeIoWatch]
  split
  · rfl
  · next old found =>
    rw [lists_of_found found] at missing
    rw [Register.removeWatch_of_notMem missing]
    exact congrArg (fun io => (m.withIo io, false)) (setIfInBounds_same found)

/-- Calls leave what is under the wrappers as it is. -/
theorem bare_applyIo_call {operation : IoOperation}
    (kept : ∀ old, (operation.change old).stripped = old.stripped) (m : Machine World) :
    ioWatching.bare (m.applyIo operation) = ioWatching.bare m := by
  rw [applyIo_eq]
  apply congrArg m.withIo
  change (m.io.modify _ _).map _ = m.io.map _
  apply Array.ext_getElem?
  intro register
  rw [Array.getElem?_map, Array.getElem?_modify, Array.getElem?_map]
  split
  · rw [Option.map_map]
    exact congrArg (fun look => Option.map look m.io[register]?) (funext kept)
  · rfl

/-- An installation replaces what is under a wrapper as it replaces a bare register. -/
theorem bare_applyIo_install (register : Nat) (new : Register) (m : Machine World) :
    ioWatching.bare (m.applyIo (.install register new)) =
      (ioWatching.bare m).withIo
        ((ioWatching.bare m).io.modify register fun _ => new.stripped) := by
  rw [applyIo_eq]
  exact congrArg m.withIo
    (map_modify (fun old => congrArg Register.bare (old.kind_withKind new.kind)) m.io register)

theorem faithful_ioWatching :
    Faithful (ioWatching : Container (Machine World) IoOperation) TidyIo where
  tidy operation tidy := tidy.applyIo operation
  refusal m operation := by
    have size : (m.applyIo operation).io.size = m.io.size := by
      rw [applyIo_eq]
      exact Array.size_modify
    exact congrArg (beyond · noRegister) size
  inserts {m operation register watch} _ called accepted := by
    cases operation with
    | insertWatch =>
        cases called
        have inside : register < m.io.size := beyond_eq_none_iff.mp accepted
        have found : m.io[register]? = some m.io[register] := Array.getElem?_eq_getElem inside
        constructor
        · change Answer.ofResult ((insertIoWatch register watch).run m).1 = _
          rw [run_insertIoWatch, if_pos inside]
          rfl
        · rw [lists_of_found found]
          exact (lists_applyIo (.insertWatch register watch) found).trans
            (congrArg _ (Register.list_insertWatch _ watch))
    | removeWatch | install => cases called
  refuses {m operation register watch fault} called refused := by
    cases operation with
    | insertWatch =>
        cases called
        obtain ⟨outside, rfl⟩ := beyond_eq_some_iff.mp refused
        change Answer.ofResult ((insertIoWatch register watch).run m).1 = _ ∧
          ((insertIoWatch register watch).run m).2 = m
        rw [run_insertIoWatch, if_neg outside]
        exact ⟨rfl, rfl⟩
    | removeWatch | install => cases called
  removes {m operation register watch} _ called member := by
    cases operation with
    | removeWatch =>
        cases called
        obtain ⟨old, found⟩ := exists_of_mem_lists member
        rw [lists_of_found found] at *
        obtain ⟨removed, list, -⟩ := Register.removeWatch_of_mem member
        constructor
        · change Answer.removed (m.removeIoWatch register watch).2 = _
          rw [removeIoWatch, found]
          exact congrArg Answer.removed removed
        · exact (lists_applyIo (.removeWatch register watch) found).trans (congrArg _ list)
    | insertWatch | install => cases called
  misses {m operation register watch} _ called missing := by
    cases operation with
    | removeWatch =>
        cases called
        change Answer.removed (m.removeIoWatch register watch).2 = _ ∧
          (m.removeIoWatch register watch).1 = m
        rw [removeIoWatch_of_notMem missing]
        exact ⟨rfl, rfl⟩
    | insertWatch | install => cases called
  other {m operation} _ other := by
    cases operation with
    | insertWatch | removeWatch => cases other
    | install register new => exact lists_install m register new
  otherFailed {m operation} _ other failed := by
    cases operation with
    | insertWatch | removeWatch => cases other
    | install register new =>
        change (Answer.ofResult ((installRegister register new.kind).run m).1).failed = true
          at failed
        change ((installRegister register new.kind).run m).2 = m
        rw [run_installRegister] at *
        split at failed
        · cases failed
        · next outside => rw [if_neg outside]
  bareCall {operation call} m called := by
    have kept : ∀ old : Register, (operation.change old).stripped = old.stripped := by
      intro old
      cases operation with
      | insertWatch _ watch => exact congrArg Register.bare (old.kind_insertWatch watch)
      | removeWatch _ watch => exact congrArg Register.bare (old.kind_removeWatch watch)
      | install => cases called
    exact bare_applyIo_call kept m
  bareOther {operation m n} other same := by
    cases operation with
    | insertWatch | removeWatch => cases other
    | install register new =>
        change ioWatching.bare (m.applyIo _) = ioWatching.bare (n.applyIo _)
        rw [bare_applyIo_install, bare_applyIo_install, same]
  bareBare m := by
    apply congrArg m.withIo
    change (m.io.map Register.stripped).map Register.stripped = m.io.map Register.stripped
    rw [Array.map_map]
    rfl

/-! ### Machines that come of new ones -/

/-- What may happen between operations that call others: operations on the watches, stores, and
whatever leaves IO registers alone. -/
inductive Tends (m : Machine World) : Machine World → Prop where
  | elsewhere {next : Machine World} (same : next.io = m.io) : Tends m next
  | store (register : Nat) (value : UInt8) : Tends m (m.setIoStored register value)
  | operation (operation : IoOperation) : Tends m (m.applyIo operation)

namespace TidyIo

theorem of_io (tidy : m.TidyIo) (same : next.io = m.io) : next.TidyIo := by
  rw [TidyIo, same]
  exact tidy

theorem setIoStored (tidy : m.TidyIo) (register : Nat) (value : UInt8) :
    (m.setIoStored register value).TidyIo := by
  apply tidy.modify register
  intro old needed
  rwa [Register.store, Register.Needed, Register.watches?_withKind]

theorem of_tends (tidy : m.TidyIo) (tends : Tends m next) : next.TidyIo := by
  cases tends with
  | elsewhere same => exact tidy.of_io same
  | store register value => exact tidy.setIoStored register value
  | operation operation => exact tidy.applyIo operation

end TidyIo

theorem tidyIo_new (part : Part) (settings : Settings) (world : World) :
    (new part settings world).TidyIo := by
  have set {io : Array Register} (bare : ∀ register ∈ io, register.watches? = none)
      (index : Nat) (kind : Kind) :
      ∀ register ∈ io.setIfInBounds index (.bare kind), register.watches? = none := by
    intro register member
    rcases Array.mem_or_eq_of_mem_setIfInBounds member with before | rfl
    · exact bare register before
    · rfl
  have plain : ∀ register ∈ Array.replicate (min part.ioSize 256) (Register.bare (.plain 0)),
      register.watches? = none := by
    intro register member
    rw [(Array.mem_replicate.mp member).2]
    rfl
  have core := set (set (set plain part.statusRegister .status) part.stackLow (.stackLow 0))
    part.stackHigh (.stackHigh 0)
  have bare : ∀ register ∈ coreRegisters part settings.reprogrammable,
      register.watches? = none := by
    unfold coreRegisters
    split
    · exact set core part.spmControl (.device .selfProgramming)
    · exact core
  refine TidyIo.setIoStored (TidyIo.setIoStored ?_ _ _) _ _
  intro register member
  rw [Register.Needed, bare register member]
  exact nofun

theorem unitInvariant_tidyIo :
    UnitInvariant (TidyIo : Machine World → Prop) fun _ => True where
  untouched _ _ same tidy := tidy.of_io same.io
  add _ _ _ tidy := tidy.of_io rfl
  grant _ _ tidy := tidy.of_io rfl
  posting _ _ _ _ _ _ tidy := tidy.of_io rfl
  enabling _ _ _ _ _ tidy := tidy.of_io rfl
  stale _ _ tidy := tidy.of_io rfl
  store _ register value tidy := tidy.setIoStored register value

theorem unconcerned_tidyIo : Unconcerned (Itself (TidyIo : Machine World → Prop)) :=
  unconcerned_itself (fun _ tidy => tidy.of_io rfl) fun _ tidy => tidy.of_io rfl

section Upheld

variable {env : Environment World} (upholds : env.Upholds TidyIo)
include upholds

theorem computing_tidyIo : Computing env (Itself TidyIo) Eq fun _ => True :=
  (unitInvariant_tidyIo.programInvariant upholds).computing

theorem background_tidyIo : Background env (Itself TidyIo) Eq fun _ => True :=
  (unitInvariant_tidyIo.programInvariant upholds).background unconcerned_tidyIo fun _ => trivial

theorem keeps_writeSpmControl_tidyIo (value : UInt8) :
    Attempt.Respects (Keeps TidyIo) (writeSpmControl env value) :=
  ((computing_tidyIo upholds).mirrors_writeSpmControl
    ((computing_tidyIo upholds).mirrors_unschedule unconcerned_tidyIo.queue _)
    (fun _ => unconcerned_tidyIo.spm _) (fun _ _ _ => trivial) value).keeps

end Upheld

theorem standing_tidyIo : Standing (TidyIo : Machine World → Prop) fun _ => True where
  toUnitInvariant := unitInvariant_tidyIo
  pairs := .of_free fun _ => trivial
  control _ upholds := keeps_writeSpmControl_tidyIo upholds
  passing _ upholds cycles := ((background_tidyIo upholds).mirrors_advance cycles).keeps

/-- Whatever happens to a new machine, no wrapper is empty. -/
theorem tidyIo_of_deed {part : Part} (settings : Settings) (world : World) {α : Type}
    {act : Action World α} (deed : Deed Tends (fun _ => True) (fun _ => True) act) :
    (act (new part settings world)).2.TidyIo := by
  have keeps : Action.Respects (Keeps TidyIo) act := by
    apply deed.keeps standing_tidyIo fun m next tends tidy => tidy.of_tends tends
    intro env upholds _
    refine ⟨fun m tidy => standing_tidyIo.keeps_step upholds tidy fun _ => ?_⟩
    exact (background_tidyIo upholds).mirrors_storeProgram.keeps
  exact keeps.related _ (tidyIo_new part settings world)

end Machine

end Avr

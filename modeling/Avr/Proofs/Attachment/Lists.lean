import Avr.Fault
import Avr.Handle
import Mathlib.Logic.Function.Basic

/-!
Contract: containers to whose addresses handles are attached, against plain lists.

Owns:
- entries of arrays that are changed in place, and what refuses addresses;
- a plain list of handles for each address, what a call does to it and what it answers;
- containers that attach handles, among their other operations;
- what one operation of a faithful container owes, and what any history of it comes to.

Does not own: where a container keeps its lists, and when they are called.
-/

namespace Avr.Attaching

/-- A call that attaches a handle at an address, or detaches it. -/
inductive Call where
  | insert (address : Nat) (handle : Handle)
  | remove (address : Nat) (handle : Handle)
deriving DecidableEq, Repr

inductive Answer where
  | done
  | refused (fault : Fault)
  /-- The answer of a removal, which tells whether there was anything to remove. -/
  | removed (found : Bool)
deriving DecidableEq, Repr

namespace Answer

def ofResult {α : Type} : Except Fault α → Answer
  | .ok _ => done
  | .error fault => refused fault

/-- Nothing was done. -/
def failed : Answer → Bool
  | done => false
  | refused _ => true
  | removed found => !found

theorem exists_of_failed {α : Type} {result : Except Fault α}
    (failed : (ofResult result).failed = true) : ∃ fault, result = .error fault := by
  cases result with
  | ok value => cases failed
  | error fault => exact ⟨fault, rfl⟩

end Answer

/-! ### Refusals -/

/-- The fault of what was refused. -/
def fault? {α : Type} : Except Fault α → Option Fault
  | .ok _ => none
  | .error fault => some fault

theorem exists_of_fault?_eq_none {α : Type} {result : Except Fault α}
    (accepted : fault? result = none) : ∃ value, result = .ok value := by
  cases result with
  | ok value => exact ⟨value, rfl⟩
  | error fault => cases accepted

theorem eq_of_fault?_eq_some {α : Type} {result : Except Fault α} {fault : Fault}
    (refused : fault? result = some fault) : result = .error fault := by
  cases result with
  | ok value => cases refused
  | error early => rw [Option.some.inj refused]

/-- The refusal of addresses that are too large. -/
def beyond (size : Nat) (fault : Nat → Fault) (address : Nat) : Option Fault :=
  if address < size then none else some (fault address)

theorem beyond_eq_none_iff {size address : Nat} {fault : Nat → Fault} :
    beyond size fault address = none ↔ address < size := by
  simp [beyond]

theorem beyond_eq_some_iff {size address : Nat} {fault : Nat → Fault} {refused : Fault} :
    beyond size fault address = some refused ↔ ¬ address < size ∧ fault address = refused := by
  simp [beyond]

/-! ### Entries of arrays -/

section Entries

variable {α : Type} {entries : Array α} {index : Nat} {old : α}

theorem modify_outside (outside : ¬ index < entries.size) (change : α → α) :
    entries.modify index change = entries := by
  apply Array.ext_getElem?
  intro other
  rw [Array.getElem?_modify]
  split
  · next here =>
    rw [← here, Array.getElem?_eq_none (Nat.not_lt.mp outside)]
    rfl
  · rfl

theorem modify_inside (found : entries[index]? = some old) (change : α → α) :
    entries.modify index change = entries.setIfInBounds index (change old) := by
  obtain ⟨inside, -⟩ := Array.getElem?_eq_some_iff.mp found
  apply Array.ext_getElem?
  intro other
  rw [Array.getElem?_modify, Array.getElem?_setIfInBounds, if_pos inside]
  split
  · next here =>
    rw [← here, found]
    rfl
  · rfl

theorem setIfInBounds_same (found : entries[index]? = some old) :
    entries.setIfInBounds index old = entries := by
  obtain ⟨inside, -⟩ := Array.getElem?_eq_some_iff.mp found
  apply Array.ext_getElem?
  intro other
  rw [Array.getElem?_setIfInBounds, if_pos inside]
  split
  · next here => rw [← here, found]
  · rfl

end Entries

/-! ### Plain lists -/

/-- A list of handles for each address. -/
abbrev Lists := Nat → HandleList

namespace Lists

variable (refusal : Nat → Option Fault) (lists : Lists)

/-- Insertion is at the end, unless the address is refused; removal is of the first entry. -/
def after : Call → Lists
  | .insert address handle =>
      match refusal address with
      | none => Function.update lists address (lists address ++ [handle])
      | some _ => lists
  | .remove address handle => Function.update lists address ((lists address).erase handle)

def answer : Call → Answer
  | .insert address _ =>
      match refusal address with
      | none => .done
      | some fault => .refused fault
  | .remove address handle => .removed (decide (handle ∈ lists address))

end Lists

/-! ### Containers -/

/-- A container in a state `σ` with operations `ω`. -/
structure Container (σ ω : Type) where
  apply : σ → ω → σ
  answer : σ → ω → Answer
  /-- The call that an operation is, if it attaches or detaches a handle. -/
  call? : ω → Option Call
  lists : σ → Lists
  refusal : σ → Nat → Option Fault
  /-- The state without anything that is attached. -/
  bare : σ → σ

variable {σ ω : Type} (c : Container σ ω)

/-- The state after a history. -/
def Container.run (start : σ) (history : List ω) : σ :=
  history.foldl c.apply start

/-- The operations of a history that neither attach nor detach. -/
def Container.others (history : List ω) : List ω :=
  history.filter fun operation => (c.call? operation).isNone

/-- What one operation does to the lists, and to what is under them. `Tidy` holds of the states that
a container can be in. -/
structure Faithful (Tidy : σ → Prop) : Prop where
  tidy : ∀ {s} operation, Tidy s → Tidy (c.apply s operation)
  refusal : ∀ s operation, c.refusal (c.apply s operation) = c.refusal s
  inserts : ∀ {s operation address handle}, Tidy s →
    c.call? operation = some (.insert address handle) → c.refusal s address = none →
      c.answer s operation = .done ∧ c.lists (c.apply s operation) =
        Function.update (c.lists s) address (c.lists s address ++ [handle])
  refuses : ∀ {s operation address handle fault},
    c.call? operation = some (.insert address handle) → c.refusal s address = some fault →
      c.answer s operation = .refused fault ∧ c.apply s operation = s
  removes : ∀ {s operation address handle}, Tidy s →
    c.call? operation = some (.remove address handle) → handle ∈ c.lists s address →
      c.answer s operation = .removed true ∧ c.lists (c.apply s operation) =
        Function.update (c.lists s) address ((c.lists s address).erase handle)
  misses : ∀ {s operation address handle}, Tidy s →
    c.call? operation = some (.remove address handle) → handle ∉ c.lists s address →
      c.answer s operation = .removed false ∧ c.apply s operation = s
  other : ∀ {s operation}, Tidy s → c.call? operation = none →
    c.lists (c.apply s operation) = c.lists s
  otherFailed : ∀ {s operation}, Tidy s → c.call? operation = none →
    (c.answer s operation).failed = true → c.apply s operation = s
  bareCall : ∀ {operation call} s, c.call? operation = some call →
    c.bare (c.apply s operation) = c.bare s
  bareOther : ∀ {operation s t}, c.call? operation = none → c.bare s = c.bare t →
    c.bare (c.apply s operation) = c.bare (c.apply t operation)
  bareBare : ∀ s, c.bare (c.bare s) = c.bare s

/-- What a history comes to, from some state on.

The lists are what plain lists come to by the same calls, and answer as these do; whatever fails
changes nothing; and what is under the lists is what the other operations alone come to, without
anything attached from the start. -/
structure ListsKept (start : σ) (history : List ω) : Prop where
  lists : c.lists (c.run start history) =
    (history.filterMap c.call?).foldl (Lists.after (c.refusal start)) (c.lists start)
  answers : ∀ operation call, c.call? operation = some call →
    c.answer (c.run start history) operation =
      (c.lists (c.run start history)).answer (c.refusal start) call
  failures : ∀ operation, (c.answer (c.run start history) operation).failed = true →
    c.apply (c.run start history) operation = c.run start history
  underneath :
    c.bare (c.run start history) = c.bare (c.run (c.bare start) (c.others history))

namespace Faithful

variable {c} {Tidy : σ → Prop} (faithful : Faithful c Tidy) {s : σ}
include faithful

theorem call {operation : ω} {call : Call} (tidy : Tidy s)
    (called : c.call? operation = some call) :
    c.lists (c.apply s operation) = (c.lists s).after (c.refusal s) call ∧
      c.answer s operation = (c.lists s).answer (c.refusal s) call := by
  cases call with
  | insert address handle =>
      simp only [Lists.after, Lists.answer]
      cases accepts : c.refusal s address with
      | none => exact (faithful.inserts tidy called accepts).symm
      | some fault =>
          obtain ⟨answers, same⟩ := faithful.refuses called accepts
          exact ⟨congrArg c.lists same, answers⟩
  | remove address handle =>
      simp only [Lists.after, Lists.answer]
      by_cases member : handle ∈ c.lists s address
      · rw [decide_eq_true member]
        exact (faithful.removes tidy called member).symm
      · obtain ⟨answers, same⟩ := faithful.misses tidy called member
        rw [decide_eq_false member, List.erase_of_not_mem member, Function.update_eq_self, same]
        exact ⟨rfl, answers⟩

theorem failed {operation : ω} (tidy : Tidy s) (failed : (c.answer s operation).failed = true) :
    c.apply s operation = s := by
  cases called : c.call? operation with
  | none => exact faithful.otherFailed tidy called failed
  | some call =>
      cases call with
      | insert address handle =>
          cases accepts : c.refusal s address with
          | none =>
              rw [(faithful.inserts tidy called accepts).1] at failed
              cases failed
          | some fault => exact (faithful.refuses called accepts).2
      | remove address handle =>
          by_cases member : handle ∈ c.lists s address
          · rw [(faithful.removes tidy called member).1] at failed
            cases failed
          · exact (faithful.misses tidy called member).2

theorem tidy_run (tidy : Tidy s) (history : List ω) : Tidy (c.run s history) := by
  induction history generalizing s with
  | nil => exact tidy
  | cons operation rest inductionHypothesis =>
      exact inductionHypothesis (faithful.tidy operation tidy)

theorem refusal_run (s : σ) (history : List ω) : c.refusal (c.run s history) = c.refusal s := by
  induction history generalizing s with
  | nil => rfl
  | cons operation rest inductionHypothesis =>
      exact (inductionHypothesis (c.apply s operation)).trans (faithful.refusal s operation)

theorem lists_run (tidy : Tidy s) (history : List ω) :
    c.lists (c.run s history) =
      (history.filterMap c.call?).foldl (Lists.after (c.refusal s)) (c.lists s) := by
  induction history generalizing s with
  | nil => rfl
  | cons operation rest inductionHypothesis =>
      have later := inductionHypothesis (faithful.tidy operation tidy)
      rw [faithful.refusal] at later
      cases found : c.call? operation with
      | some call =>
          rw [List.filterMap_cons_some found, List.foldl_cons, ← (faithful.call tidy found).1]
          exact later
      | none =>
          rw [List.filterMap_cons_none found, ← faithful.other tidy found]
          exact later

/-- Calls make no difference to what is under the lists. -/
theorem bare_run {t : σ} (same : c.bare s = c.bare t) (history : List ω) :
    c.bare (c.run s history) = c.bare (c.run t (c.others history)) := by
  induction history generalizing s t with
  | nil => exact same
  | cons operation rest inductionHypothesis =>
      cases found : c.call? operation with
      | some call =>
          have skips : c.others (operation :: rest) = c.others rest :=
            List.filter_cons_of_neg (by simp [found])
          rw [skips]
          exact inductionHypothesis ((faithful.bareCall s found).trans same)
      | none =>
          have takes : c.others (operation :: rest) = operation :: c.others rest :=
            List.filter_cons_of_pos (by simp [found])
          rw [takes]
          exact inductionHypothesis (faithful.bareOther found same)

theorem kept (tidy : Tidy s) (history : List ω) : ListsKept c s history where
  lists := faithful.lists_run tidy history
  answers operation call found := by
    rw [(faithful.call (faithful.tidy_run tidy history) found).2, faithful.refusal_run]
  failures operation failed := faithful.failed (faithful.tidy_run tidy history) failed
  underneath := faithful.bare_run (faithful.bareBare s).symm history

end Faithful

end Avr.Attaching

import Avr.Memory.Segment
import Avr.Proofs.Attachment.Lists

/-!
Contract: the watches of a segment, which share one table.

Owns:
- what is done with a segment by inspection: watches, and changes of its bytes;
- tidy tables: as long as the bytes, and gone with the last watch;
- the watches of a segment as a faithful container.
-/

namespace Avr.Memory.Segment

open Avr.Attaching

/-- What is done with a segment by inspection. -/
inductive Operation where
  | insertWatch (address : Nat) (watch : Handle)
  | removeWatch (address : Nat) (watch : Handle)
  | set (address : Nat) (value : UInt8)
  | load (offset : Nat) (values : List UInt8)
  | fill (value : UInt8)
deriving DecidableEq, Repr

/-- The segment after an operation, which stays as it is if that was refused. -/
def kept (s : Segment) : Except Fault Segment → Segment
  | .ok next => next
  | .error _ => s

def apply (s : Segment) : Operation → Segment
  | .insertWatch address watch => s.kept (s.insertWatch address watch)
  | .removeWatch address watch => (s.removeWatch address watch).1
  | .set address value => s.kept (s.set address value)
  | .load offset values => s.kept (s.load offset values)
  | .fill value => s.fill value

/-- The segment with other bytes. -/
def withBytes (s : Segment) (bytes : Array UInt8) : Segment :=
  { s with bytes }

/-- The watches of a segment, with the operations of the segment. -/
def watching : Container Segment Operation where
  apply := apply
  answer s operation :=
    match operation with
    | .insertWatch address watch => .ofResult (s.insertWatch address watch)
    | .removeWatch address watch => .removed (s.removeWatch address watch).2
    | .set address value => .ofResult (s.set address value)
    | .load offset values => .ofResult (s.load offset values)
    | .fill _ => .done
  call?
    | .insertWatch address watch => some (.insert address watch)
    | .removeWatch address watch => some (.remove address watch)
    | .set _ _ | .load _ _ | .fill _ => none
  lists s address := (s.watchesAt address).getD []
  refusal s := beyond s.size s.outside
  bare s := { s with watches := none }

/-! ### Bytes -/

/-- What an operation makes of the bytes of a segment. -/
def bytesAfter (bytes : Array UInt8) : Operation → Array UInt8
  | .set address value => bytes.setIfInBounds address value
  | .load offset values =>
      if offset + values.length ≤ bytes.size then overwrite bytes offset values else bytes
  | .fill value => Array.replicate bytes.size value
  | .insertWatch _ _ | .removeWatch _ _ => bytes

theorem size_bytesAfter (bytes : Array UInt8) (operation : Operation) :
    (bytesAfter bytes operation).size = bytes.size := by
  cases operation with
  | load offset values =>
      simp only [bytesAfter]
      split
      · exact size_overwrite bytes offset values
      · rfl
  | _ => simp [bytesAfter]

theorem apply_other {s : Segment} {operation : Operation}
    (other : watching.call? operation = none) :
    s.apply operation = s.withBytes (bytesAfter s.bytes operation) := by
  cases operation with
  | insertWatch | removeWatch => cases other
  | set address value =>
      simp only [apply, set]
      split
      · rfl
      · next outside =>
        rw [bytesAfter, Array.setIfInBounds_eq_of_size_le (Nat.not_lt.mp outside)]
        rfl
  | load offset values =>
      simp only [apply, load, bytesAfter]
      split <;> rfl
  | fill value => rfl

/-! ### Tables -/

/-- The list of an address in a table. -/
def listIn (table : Array HandleList) (address : Nat) : HandleList :=
  table[address]?.getD []

theorem listIn_replicate (size address : Nat) : listIn (Array.replicate size []) address = [] := by
  rw [listIn, Array.getElem?_replicate]
  split <;> rfl

theorem lt_size_of_mem_listIn {table : Array HandleList} {address : Nat} {watch : Handle}
    (member : watch ∈ listIn table address) : address < table.size := by
  by_contra outside
  rw [listIn, Array.getElem?_eq_none (Nat.not_lt.mp outside)] at member
  cases member

theorem listIn_modify {table : Array HandleList} {address : Nat} (inside : address < table.size)
    (change : HandleList → HandleList) :
    listIn (table.modify address change) =
      Function.update (listIn table) address (change (listIn table address)) := by
  funext other
  rw [listIn, Array.getElem?_modify, Function.update_apply]
  by_cases here : other = address
  · rw [if_pos here.symm, if_pos here, here, listIn, Array.getElem?_eq_getElem inside]
    rfl
  · rw [if_neg (Ne.symm here), if_neg here, listIn]

theorem all_isEmpty_iff {table : Array HandleList} :
    table.all List.isEmpty = true ↔ ∀ address, listIn table address = [] := by
  rw [Array.all_eq_true]
  constructor
  · intro empty address
    by_cases inside : address < table.size
    · rw [listIn, Array.getElem?_eq_getElem inside]
      exact List.isEmpty_iff.mp (empty address inside)
    · rw [listIn, Array.getElem?_eq_none (Nat.not_lt.mp inside)]
      rfl
  · intro empty address inside
    have list := empty address
    rw [listIn, Array.getElem?_eq_getElem inside] at list
    exact List.isEmpty_iff.mpr list

/-- A table that is kept only if one of its lists has an entry. -/
def pruned (table : Array HandleList) : Option (Array HandleList) :=
  if table.all List.isEmpty then none else some table

theorem listIn_pruned (table : Array HandleList) (size : Nat) :
    listIn ((pruned table).getD (Array.replicate size [])) = listIn table := by
  unfold pruned
  split
  · next empty =>
    funext address
    exact (listIn_replicate size address).trans (all_isEmpty_iff.mp empty address).symm
  · rfl

/-- The table of a segment, with empty lists if there is none. -/
def table (s : Segment) : Array HandleList :=
  s.watches.getD (Array.replicate s.bytes.size [])

theorem lists_watching (s : Segment) : watching.lists s = listIn s.table := by
  funext address
  change (s.watchesAt address).getD [] = _
  unfold watchesAt table
  cases s.watches with
  | none => exact (listIn_replicate _ _).symm
  | some table =>
      simp only [Option.getD_some, listIn]
      rcases table[address]? with _ | _ | _ <;> rfl

variable {s : Segment}

/-- Insertion builds the table if there is none, and changes one list of it. -/
theorem apply_insertWatch {address : Nat} (watch : Handle) (inside : address < s.bytes.size) :
    s.apply (.insertWatch address watch) =
      { s with watches := some (s.table.modify address (HandleList.insert · watch)) } := by
  rw [apply, insertWatch, if_pos inside]
  rfl

/-- Removal changes one list, and drops a table that has become empty. -/
theorem removeWatch_of_mem {address : Nat} {watch : Handle}
    (member : watch ∈ watching.lists s address) :
    s.removeWatch address watch =
      ({ s with watches := pruned (s.table.modify address (List.erase · watch)) }, true) := by
  rw [lists_watching, table] at member
  unfold removeWatch table
  cases found : s.watches with
  | none =>
      rw [found, Option.getD_none, listIn_replicate] at member
      cases member
  | some table =>
      rw [found, Option.getD_some] at member
      have inside : address < table.size := lt_size_of_mem_listIn member
      have entry : table[address]? = some table[address] := Array.getElem?_eq_getElem inside
      rw [listIn, entry, Option.getD_some] at member
      have changed : table.modify address (List.erase · watch) =
          table.setIfInBounds address (table[address].erase watch) := modify_inside entry _
      simp [HandleList.remove, member, pruned, entry, changed]

theorem removeWatch_of_notMem {address : Nat} {watch : Handle}
    (missing : watch ∉ watching.lists s address) : s.removeWatch address watch = (s, false) := by
  rw [lists_watching, table] at missing
  unfold removeWatch
  split
  · rfl
  · next table found =>
    rw [found, Option.getD_some, listIn] at missing
    split
    · rfl
    · next handles entry =>
      rw [entry, Option.getD_some] at missing
      simp [HandleList.remove, missing]

/-- A table has a list for each byte, and some list has an entry. -/
structure TidyTable (s : Segment) : Prop where
  size : ∀ table, s.watches = some table → table.size = s.bytes.size
  needed : ∀ table, s.watches = some table → ∃ address, listIn table address ≠ []

namespace TidyTable

theorem size_table (tidy : s.TidyTable) : s.table.size = s.bytes.size := by
  unfold table
  cases found : s.watches with
  | none => exact Array.size_replicate
  | some table => exact tidy.size table found

theorem of_pruned (tidy : s.TidyTable) (address : Nat) (change : HandleList → HandleList) :
    ({ s with watches := pruned (s.table.modify address change) } : Segment).TidyTable := by
  constructor
  · intro next kept
    simp only [pruned, Option.ite_none_left_eq_some, Option.some.injEq] at kept
    rw [← kept.2, Array.size_modify]
    exact tidy.size_table
  · intro next kept
    simp only [pruned, Option.ite_none_left_eq_some, Option.some.injEq] at kept
    rw [← kept.2]
    by_contra none
    apply kept.1
    rw [all_isEmpty_iff]
    intro address
    by_contra some
    exact none ⟨address, some⟩

theorem apply (tidy : s.TidyTable) (operation : Operation) : (s.apply operation).TidyTable := by
  cases operation with
  | insertWatch address watch =>
      by_cases inside : address < s.bytes.size
      · have within : address < s.table.size := tidy.size_table.symm ▸ inside
        rw [apply_insertWatch watch inside]
        constructor
        · rintro _ ⟨⟩
          exact Array.size_modify.trans tidy.size_table
        · rintro _ ⟨⟩
          refine ⟨address, ?_⟩
          rw [listIn_modify within, Function.update_self]
          simp [HandleList.insert]
      · simpa [Segment.apply, insertWatch, inside, Segment.kept] using tidy
  | removeWatch address watch =>
      by_cases member : watch ∈ watching.lists s address
      · rw [Segment.apply, removeWatch_of_mem member]
        exact tidy.of_pruned address (List.erase · watch)
      · rw [Segment.apply, removeWatch_of_notMem member]
        exact tidy
  | set | load | fill =>
      rw [apply_other rfl]
      refine ⟨fun table found => ?_, tidy.needed⟩
      exact (tidy.size table found).trans (size_bytesAfter _ _).symm

/-- The table exists exactly if some address has a watch. -/
theorem isSome_watches (tidy : s.TidyTable) :
    s.watches.isSome = true ↔ ∃ address, watching.lists s address ≠ [] := by
  rw [lists_watching, table]
  cases found : s.watches with
  | none => simp [listIn_replicate]
  | some table => simpa using tidy.needed table found

end TidyTable

/-! ### Watches against plain lists -/

/-- An operation changes nothing but the bytes, as it says, and the table. -/
theorem apply_eq (s : Segment) (operation : Operation) :
    s.apply operation =
      { s with
        bytes := bytesAfter s.bytes operation
        watches := (s.apply operation).watches } := by
  cases operation with
  | insertWatch address watch =>
      simp only [apply, insertWatch]
      split <;> rfl
  | removeWatch address watch =>
      by_cases member : watch ∈ watching.lists s address
      · rw [apply, removeWatch_of_mem member]
        rfl
      · rw [apply, removeWatch_of_notMem member]
        rfl
  | set | load | fill =>
      rw [apply_other rfl]
      rfl

theorem lists_insertWatch (tidy : s.TidyTable) {address : Nat} (watch : Handle)
    (inside : address < s.bytes.size) :
    watching.lists (s.apply (.insertWatch address watch)) =
      Function.update (watching.lists s) address (watching.lists s address ++ [watch]) := by
  have within : address < s.table.size := tidy.size_table.symm ▸ inside
  rw [apply_insertWatch watch inside, lists_watching, lists_watching]
  exact listIn_modify within (HandleList.insert · watch)

theorem lists_removeWatch {address : Nat} {watch : Handle}
    (member : watch ∈ watching.lists s address) :
    watching.lists (s.apply (.removeWatch address watch)) =
      Function.update (watching.lists s) address ((watching.lists s address).erase watch) := by
  rw [apply, removeWatch_of_mem member]
  rw [lists_watching] at member
  rw [lists_watching, lists_watching]
  exact (listIn_pruned _ s.bytes.size).trans
    (listIn_modify (lt_size_of_mem_listIn member) (List.erase · watch))

theorem faithful_watching : Faithful watching TidyTable where
  tidy operation tidy := tidy.apply operation
  refusal s operation := by
    change beyond (s.apply operation).size (s.apply operation).outside = _
    rw [apply_eq, size, size_bytesAfter]
    rfl
  inserts {s operation address watch} tidy called accepted := by
    have inside : address < s.bytes.size := beyond_eq_none_iff.mp accepted
    cases operation with
    | insertWatch =>
        cases called
        exact ⟨congrArg Answer.ofResult (if_pos inside), lists_insertWatch tidy watch inside⟩
    | removeWatch | set | load | fill => cases called
  refuses {s operation address watch fault} called refused := by
    obtain ⟨outside, rfl⟩ := beyond_eq_some_iff.mp refused
    cases operation with
    | insertWatch =>
        cases called
        have refuses : s.insertWatch address watch = .error (s.outside address) := if_neg outside
        exact ⟨congrArg Answer.ofResult refuses, congrArg s.kept refuses⟩
    | removeWatch | set | load | fill => cases called
  removes {s operation address watch} _ called member := by
    cases operation with
    | removeWatch =>
        cases called
        refine ⟨?_, lists_removeWatch member⟩
        change Answer.removed (s.removeWatch address watch).2 = _
        rw [removeWatch_of_mem member]
    | insertWatch | set | load | fill => cases called
  misses {s operation address watch} _ called missing := by
    cases operation with
    | removeWatch =>
        cases called
        change Answer.removed (s.removeWatch address watch).2 = _ ∧
          (s.removeWatch address watch).1 = s
        rw [removeWatch_of_notMem missing]
        exact ⟨rfl, rfl⟩
    | insertWatch | set | load | fill => cases called
  other {s operation} _ other := by
    funext address
    change watching.lists (s.apply operation) address = _
    rw [apply_other other]
    rfl
  otherFailed {s operation} _ other failed := by
    cases operation with
    | insertWatch | removeWatch => cases other
    | set address value =>
        obtain ⟨fault, refused⟩ := Answer.exists_of_failed failed
        exact congrArg s.kept refused
    | load offset values =>
        obtain ⟨fault, refused⟩ := Answer.exists_of_failed failed
        exact congrArg s.kept refused
    | fill => cases failed
  bareCall {operation call} s called := by
    have bytes : bytesAfter s.bytes operation = s.bytes := by
      cases operation with
      | insertWatch | removeWatch => rfl
      | set | load | fill => cases called
    change { s.apply operation with watches := none } = _
    rw [apply_eq, bytes]
    rfl
  bareOther {operation s t} other same := by
    change ({ s with watches := none } : Segment) = { t with watches := none } at same
    have bytes : s.bytes = t.bytes := (Segment.mk.inj same).2.1
    change ({ s.apply operation with watches := none } : Segment) =
      { t.apply operation with watches := none }
    rw [apply_other other, apply_other other, bytes]
    exact congrArg (Segment.withBytes · (bytesAfter t.bytes operation)) same
  bareBare s := rfl

/-- The bytes are what the operations make of them, whatever was attached in between. -/
theorem bytes_run (s : Segment) (history : List Operation) :
    (watching.run s history).bytes = history.foldl bytesAfter s.bytes := by
  induction history generalizing s with
  | nil => rfl
  | cons operation rest inductionHypothesis =>
      have first : (s.apply operation).bytes = bytesAfter s.bytes operation := by rw [apply_eq]
      rw [List.foldl_cons, ← first]
      exact inductionHypothesis (s.apply operation)

end Avr.Memory.Segment

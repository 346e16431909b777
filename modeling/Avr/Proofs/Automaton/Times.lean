import Avr.Automaton.Times
import Mathlib.Algebra.Group.Int.Defs
import Mathlib.Algebra.Group.Nat.Defs
import Mathlib.Data.List.Basic

/-!
Contract: a table of transition times says what it was built from.

Owns:
- the time between two states of a built table and of a table read from rows;
- which rows can be read as a table;
- tables written out as rows, and the way back.

Rows are flattened into one list, so the lemmas on flattened rows come first. Every table is the
table of its own times, and writing it out and reading it back builds it again from them.
-/

namespace Avr.Automaton

/-! ### Flattened rows -/

/-- The cell of a table given as rows, if there is one. -/
def cell? {α : Type} (rows : List (List α)) (row column : Nat) : Option α :=
  rows[row]?.bind fun cells => cells[column]?

theorem getElem?_flatten {α : Type} {width : Nat} {rows : List (List α)}
    (even : ∀ row ∈ rows, row.length = width) (row : Nat) {column : Nat}
    (inside : column < width) :
    rows.flatten[row * width + column]? = cell? rows row column := by
  induction rows generalizing row with
  | nil => rfl
  | cons head rest inductionHypothesis =>
      have headWidth : head.length = width := even head List.mem_cons_self
      have restEven : ∀ row ∈ rest, row.length = width := by
        intro row member
        exact even row (List.mem_cons_of_mem _ member)
      rw [List.flatten_cons]
      by_cases first : row = 0
      · subst first
        rw [List.getElem?_append_left (by omega), Nat.zero_mul, Nat.zero_add]
        rfl
      · have later : row * width + column - head.length = (row - 1) * width + column := by
          rw [Nat.sub_mul]
          have wide : 1 * width ≤ row * width := Nat.mul_le_mul_right _ (by omega)
          omega
        have behind : head.length ≤ row * width + column := by
          have wide : 1 * width ≤ row * width := Nat.mul_le_mul_right _ (by omega)
          omega
        rw [List.getElem?_append_right behind, later, inductionHypothesis restEven]
        show cell? rest (row - 1) column = cell? (head :: rest) row column
        rw [cell?, cell?, List.getElem?_cons, if_neg first]

theorem cell?_map {α β : Type} (f : α → β) (rows : List (List α)) (row column : Nat) :
    cell? (rows.map (List.map f)) row column = (cell? rows row column).map f := by
  simp only [cell?, List.getElem?_map]
  cases rows[row]? with
  | none => rfl
  | some cells => exact List.getElem?_map

theorem even_map {α β : Type} (f : α → β) {rows : List (List α)}
    (even : ∀ row ∈ rows, row.length = rows.length) :
    ∀ row ∈ rows.map (List.map f), row.length = (rows.map (List.map f)).length := by
  intro row member
  obtain ⟨original, originalMember, rfl⟩ := List.mem_map.mp member
  rw [List.length_map, List.length_map, even original originalMember]

theorem exists_cell {α : Type} {rows : List (List α)}
    (even : ∀ row ∈ rows, row.length = rows.length) {row column : Nat}
    (rowInside : row < rows.length) (columnInside : column < rows.length) :
    ∃ value, cell? rows row column = some value := by
  have width : rows[row].length = rows.length := even _ (List.getElem_mem rowInside)
  rw [cell?, List.getElem?_eq_getElem rowInside, Option.bind_some,
    List.getElem?_eq_getElem (width.symm ▸ columnInside)]
  exact ⟨_, rfl⟩

/-- Rows of the given times, for all pairs of states below `size`. -/
def square {α : Type} (size : Nat) (time : Nat → Nat → α) : List (List α) :=
  (List.range size).map fun source => (List.range size).map (time source)

section Square

variable {α β : Type} {size : Nat} {time : Nat → Nat → α}

theorem length_square : (square size time).length = size := by
  simp [square]

theorem length_of_mem_square {row : List α} (member : row ∈ square size time) :
    row.length = size := by
  simp only [square, List.mem_map] at member
  obtain ⟨source, -, rfl⟩ := member
  simp

theorem cell?_square (source target : Nat) :
    cell? (square size time) source target =
      if source < size ∧ target < size then some (time source target) else none := by
  by_cases sourceInside : source < size
  · by_cases targetInside : target < size
    · simp [cell?, square, sourceInside, targetInside]
    · simp [cell?, square, sourceInside, targetInside]
  · simp [cell?, square, sourceInside]

theorem square_congr {other : Nat → Nat → α}
    (same : ∀ source < size, ∀ target < size, time source target = other source target) :
    square size time = square size other := by
  simp only [square]
  apply List.map_congr_left
  intro source sourceInside
  apply List.map_congr_left
  intro target targetInside
  exact same source (List.mem_range.mp sourceInside) target (List.mem_range.mp targetInside)

theorem map_square (f : α → β) :
    (square size time).map (List.map f) =
      square size fun source target => f (time source target) := by
  simp [square, Function.comp_def]

/-- A square table is made of its cells. -/
theorem square_of_cells {rows : List (List α)} (even : ∀ row ∈ rows, row.length = rows.length)
    (cells : ∀ source < rows.length, ∀ target < rows.length,
      cell? rows source target = some (time source target)) :
    rows = square rows.length time := by
  apply List.ext_getElem length_square.symm
  intro source inside _
  have rowLength : rows[source].length = rows.length := even _ (List.getElem_mem inside)
  apply List.ext_getElem
  · simp [square, rowLength]
  · intro target targetInside _
    have here := cells source inside target (by omega)
    rw [cell?, List.getElem?_eq_getElem inside, Option.bind_some,
      List.getElem?_eq_getElem targetInside] at here
    simpa [square] using Option.some.inj here

end Square

namespace Times

/-! ### Built tables -/

/-- The time that a table is built from, with nothing to do on the diagonal. -/
def given (time : Nat → Nat → Option Nat) (source target : Nat) : Option Nat :=
  if source = target then some 0 else time source target

theorem entries_build (size : Nat) (time : Nat → Nat → Option Nat) :
    (build size time).entries = (square size (given time)).flatten := by
  rw [square, ← List.flatMap_def]
  rfl

/-- Entries stand where the time between two states looks for them. -/
theorem time_flatten {rows : List (List (Option Nat))}
    (even : ∀ row ∈ rows, row.length = rows.length) (source target : Nat) :
    time ⟨rows.length, rows.flatten⟩ source target = (cell? rows source target).join := by
  rw [time]
  by_cases inside : source < rows.length ∧ target < rows.length
  · rw [if_pos inside]
    show (rows.flatten[source * rows.length + target]?).join = _
    rw [getElem?_flatten even source inside.2]
  · rw [if_neg inside]
    have outside : cell? rows source target = none := by
      rw [cell?, Option.bind_eq_none_iff]
      intro row found
      have rowLength := even row (List.mem_of_getElem? found)
      have sourceInside := (List.getElem?_eq_some_iff.mp found).1
      rw [List.getElem?_eq_none_iff]
      omega
    rw [outside]
    rfl

theorem build_eq (size : Nat) (time : Nat → Nat → Option Nat) :
    build size time = ⟨(square size (given time)).length, (square size (given time)).flatten⟩ := by
  rw [← entries_build, length_square]
  rfl

theorem time_build (size : Nat) (time : Nat → Nat → Option Nat) (source target : Nat) :
    (build size time).time source target =
      if source < size ∧ target < size then given time source target else none := by
  rw [build_eq, time_flatten, cell?_square]
  · split
    · rfl
    · rfl
  · intro row member
    rw [length_square, length_of_mem_square member]

/-- The states below `size` are connected by staying and by the given moves, and nothing else. -/
def Connects (table : Times) (size : Nat) (move : Nat → Nat → Nat → Prop) : Prop :=
  ∀ source target cycles, table.time source target = some cycles ↔
    source < size ∧ target < size ∧
      (source = target ∧ cycles = 0 ∨ source ≠ target ∧ move source target cycles)

theorem connects_build {size : Nat} {time : Nat → Nat → Option Nat}
    {move : Nat → Nat → Nat → Prop}
    (moves : ∀ source target cycles, source ≠ target →
      (time source target = some cycles ↔ move source target cycles)) :
    Connects (build size time) size move := by
  intro source target cycles
  rw [time_build]
  by_cases inside : source < size ∧ target < size
  · rw [if_pos inside, given]
    by_cases same : source = target
    · simp [same, inside.2, eq_comm]
    · simp [same, inside, moves source target cycles same]
  · rw [if_neg inside]
    constructor
    · exact nofun
    · intro move
      exact absurd ⟨move.1, move.2.1⟩ inside

/-! ### Tables read from rows -/

/-- What a written entry means. -/
def meaning (value : Int) : Option Nat :=
  if value = -1 then none else some value.toNat

/-- The rows can be read as a table of times. -/
structure Legible (rows : List (List Int)) : Prop where
  even : ∀ row ∈ rows, row.length = rows.length
  diagonal : ∀ state < rows.length, cell? rows state state = some 0
  entries : ∀ row ∈ rows, ∀ value ∈ row, -1 ≤ value

/-- The table that rows are read as. -/
def reading (rows : List (List Int)) : Times :=
  ⟨rows.length, (rows.map (List.map meaning)).flatten⟩

/-- Where each value is read under a condition, a list is read under the condition on all values. -/
theorem mapM_eq_some_iff {α β : Type} {f : α → Option β} {allowed : α → Prop} {g : α → β}
    (reads : ∀ x y, f x = some y ↔ allowed x ∧ y = g x) (values : List α) (read : List β) :
    values.mapM f = some read ↔ (∀ x ∈ values, allowed x) ∧ read = values.map g := by
  induction values generalizing read with
  | nil => simp [eq_comm]
  | cons head rest inductionHypothesis =>
      simp only [List.mapM_cons, Option.bind_eq_bind, Option.bind_eq_some_iff, reads,
        inductionHypothesis, Option.pure_def, Option.some.injEq, List.forall_mem_cons,
        List.map_cons]
      constructor
      · rintro ⟨_, ⟨first, rfl⟩, _, ⟨others, rfl⟩, rfl⟩
        exact ⟨⟨first, others⟩, rfl⟩
      · rintro ⟨⟨first, others⟩, rfl⟩
        exact ⟨g head, ⟨first, rfl⟩, rest.map g, ⟨others, rfl⟩, rfl⟩

theorem entry?_eq_some_iff (value : Int) (read : Option Nat) :
    entry? value = some read ↔ -1 ≤ value ∧ read = meaning value := by
  rw [ entry?, meaning]
  split
  · next absent => simp [absent, eq_comm]
  · split
    · simp
      omega
    · next nonnegative =>
      have allowed : -1 ≤ value := by omega
      simp [allowed, eq_comm]

theorem row?_eq_some_iff (index : Nat) (row : List Int) (read : List (Option Nat)) :
    row? index row = some read ↔
      (row[index]? = some 0 ∧ ∀ value ∈ row, -1 ≤ value) ∧ read = row.map meaning := by
  rw [row?]
  split
  · next zero => simp [zero, mapM_eq_some_iff entry?_eq_some_iff]
  · next other => simp [other]

theorem ofRows?_eq_some_iff (rows : List (List Int)) (table : Times) :
    ofRows? rows = some table ↔ Legible rows ∧ table = reading rows := by
  have readAll (read : List (List (Option Nat))) :=
    mapM_eq_some_iff (fun (entry : List Int × Nat) read => row?_eq_some_iff entry.2 entry.1 read)
      rows.zipIdx read
  have forgetful : rows.zipIdx.map (fun entry => entry.1.map meaning) =
      rows.map (List.map meaning) := by
    rw [show (fun entry : List Int × Nat => entry.1.map meaning) =
        List.map meaning ∘ Prod.fst from rfl, ← List.map_map, List.zipIdx_map_fst]
  rw [ofRows?]
  by_cases even : ∀ row ∈ rows, row.length = rows.length
  · rw [if_pos (by simpa using even)]
    simp only [Option.map_eq_some_iff, readAll, forgetful]
    constructor
    · rintro ⟨_, ⟨legible, rfl⟩, rfl⟩
      refine ⟨⟨even, ?diagonal, ?entries⟩, rfl⟩
      case diagonal =>
        intro state inside
        have here := legible (rows[state], state) (by simp [List.mem_zipIdx_iff_getElem?, inside])
        rw [cell?, List.getElem?_eq_getElem inside]
        exact here.1
      case entries =>
        intro row member
        obtain ⟨state, inside, rfl⟩ := List.getElem_of_mem member
        exact (legible (rows[state], state)
          (by simp [List.mem_zipIdx_iff_getElem?, inside])).2
    · rintro ⟨legible, rfl⟩
      refine ⟨_, ⟨?_, rfl⟩, rfl⟩
      rintro ⟨row, state⟩ member
      have found : rows[state]? = some row := List.mem_zipIdx_iff_getElem?.mp member
      have zero := legible.diagonal state (List.getElem?_eq_some_iff.mp found).1
      rw [cell?, found] at zero
      exact ⟨zero, legible.entries row (List.mem_of_getElem? found)⟩
  · rw [if_neg (by simpa using even)]
    constructor
    · exact nofun
    · intro legible
      exact absurd legible.1.even even

theorem time_reading {rows : List (List Int)} (legible : Legible rows) (source target : Nat) :
    (reading rows).time source target = (cell? rows source target).bind meaning := by
  have size : rows.length = (rows.map (List.map meaning)).length := by
    rw [List.length_map]
  rw [reading, size, time_flatten (even_map meaning legible.even), cell?_map]
  cases cell? rows source target with
  | none => rfl
  | some value => rfl

/-! ### Tables written as rows -/

/-- A time as an entry of a row. -/
def entry : Option Nat → Int
  | none => -1
  | some cycles => cycles

theorem meaning_entry (time : Option Nat) : meaning (entry time) = time := by
  cases time with
  | none => rfl
  | some cycles =>
      show (if (cycles : Int) = -1 then none else some (cycles : Int).toNat) = some cycles
      rw [if_neg (by omega), Int.toNat_natCast]

/-- The table written out as rows. -/
def written (table : Times) : List (List Int) :=
  square table.size fun source target => entry (table.time source target)

/-- Tables made by a builder or read from rows. -/
inductive Built : Times → Prop
  | uniform (size time : Nat) : Built (uniform size time)
  | bimodal (size hub inward outward : Nat) : Built (bimodal size hub inward outward)
  | ring (size time : Nat) (wrap : Bool) : Built (ring size time wrap)
  | rows {rows : List (List Int)} {table : Times} (read : ofRows? rows = some table) : Built table

/-- Reading legible rows builds the table of what their cells mean. -/
theorem reading_eq_build {rows : List (List Int)} (legible : Legible rows) :
    reading rows =
      build rows.length fun source target => (cell? rows source target).bind meaning := by
  have size : (rows.map (List.map meaning)).length = rows.length := by
    rw [List.length_map]
  have cells : rows.map (List.map meaning) = square rows.length
      (given fun source target => (cell? rows source target).bind meaning) := by
    rw [← size]
    apply square_of_cells (even_map meaning legible.even)
    intro source sourceInside target targetInside
    rw [size] at sourceInside targetInside
    obtain ⟨value, found⟩ := exists_cell legible.even sourceInside targetInside
    rw [cell?_map, given, found]
    by_cases same : source = target
    · subst same
      have zero : value = 0 := by
        rw [legible.diagonal source sourceInside] at found
        exact (Option.some.inj found).symm
      rw [if_pos rfl, zero]
      rfl
    · rw [if_neg same]
      rfl
  rw [reading, cells, ← entries_build]
  rfl

/-- Every table made by a builder or read from rows is the table of some times. -/
theorem Built.eq_build {table : Times} (built : Built table) :
    ∃ time, table = build table.size time := by
  cases built with
  | uniform size time => exact ⟨_, rfl⟩
  | bimodal size hub inward outward => exact ⟨_, rfl⟩
  | ring size time wrap => exact ⟨_, rfl⟩
  | rows read =>
      obtain ⟨legible, rfl⟩ := (ofRows?_eq_some_iff _ _).mp read
      exact ⟨_, reading_eq_build legible⟩

section Written

variable (size : Nat) (time : Nat → Nat → Option Nat)

theorem written_build :
    written (build size time) =
      square size fun source target => entry (given time source target) := by
  apply square_congr
  intro source sourceInside target targetInside
  rw [time_build, if_pos ⟨sourceInside, targetInside⟩]

theorem legible_written_build : Legible (written (build size time)) := by
  rw [written_build]
  constructor
  case even =>
    intro row member
    rw [length_square, length_of_mem_square member]
  case diagonal =>
    intro state inside
    rw [length_square] at inside
    rw [cell?_square, if_pos ⟨inside, inside⟩, given, if_pos rfl]
    rfl
  case entries =>
    intro row member value valueMember
    simp only [square, List.mem_map] at member
    obtain ⟨source, -, rfl⟩ := member
    obtain ⟨target, -, rfl⟩ := List.mem_map.mp valueMember
    cases given time source target with
    | none => exact Int.le_refl _
    | some cycles =>
        show (-1 : Int) ≤ (cycles : Int)
        omega

theorem reading_written_build : reading (written (build size time)) = build size time := by
  rw [written_build, reading, map_square, length_square]
  simp only [meaning_entry]
  rw [← entries_build]
  rfl

end Written

/-- A written entry is below any bound on the times of the table. -/
theorem written_lt {table : Times} {bound : Nat} (positive : 0 < bound)
    (times : ∀ source target cycles, table.time source target = some cycles → cycles < bound) :
    ∀ row ∈ table.written, ∀ value ∈ row, value < bound := by
  intro row member value valueMember
  simp only [written, square, List.mem_map] at member
  obtain ⟨source, -, rfl⟩ := member
  obtain ⟨target, -, rfl⟩ := List.mem_map.mp valueMember
  cases found : table.time source target with
  | none =>
      show (-1 : Int) < bound
      omega
  | some cycles =>
      show (cycles : Int) < bound
      have small := times source target cycles found
      omega

/-- A table of transition times is what it says: the builders connect the states that their shape
names and no others; exactly the legible rows are read, cell by cell; and a table whose times fit
in a signed word of 64 bits is written as rows of such words that are read as the table again. -/
theorem tables_mean_what_they_say :
    (∀ size time, Connects (uniform size time) size fun _ _ cycles => cycles = time) ∧
    (∀ size hub inward outward, Connects (bimodal size hub inward outward) size
      fun source target cycles =>
        target = hub ∧ cycles = inward ∨ source = hub ∧ cycles = outward) ∧
    (∀ size time wrap, Connects (ring size time wrap) size fun source target cycles =>
      (target = source + 1 ∨ wrap = true ∧ source + 1 = size ∧ target = 0) ∧ cycles = time) ∧
    (∀ rows, (ofRows? rows).isSome ↔ Legible rows) ∧
    (∀ rows table, ofRows? rows = some table → table.size = rows.length ∧
      ∀ source target, table.time source target = (cell? rows source target).bind meaning) ∧
    ∀ table, Built table →
      (∀ source target cycles, table.time source target = some cycles → cycles < 2 ^ 63) →
      ofRows? table.written = some table ∧
        ∀ row ∈ table.written, ∀ value ∈ row, -1 ≤ value ∧ value < 2 ^ 63 := by
  refine ⟨?uniform, ?bimodal, ?ring, ?accepted, ?read, ?back⟩
  case uniform =>
    intro size time
    apply connects_build
    intro source target cycles _
    simp [eq_comm]
  case bimodal =>
    intro size hub inward outward
    apply connects_build
    intro source target cycles apart
    by_cases toHub : target = hub
    · have elsewhere : source ≠ hub := by
        rintro rfl
        exact apart toHub.symm
      simp [toHub, elsewhere, eq_comm]
    · by_cases fromHub : source = hub
      · simp [toHub, fromHub, eq_comm]
      · simp [toHub, fromHub]
  case ring =>
    intro size time wrap
    apply connects_build
    intro source target cycles _
    split
    · next move =>
      rw [Option.some.injEq, eq_comm]
      exact (and_iff_right move).symm
    · next still => simp [still]
  case accepted =>
    intro rows
    simp only [Option.isSome_iff_exists, ofRows?_eq_some_iff]
    constructor
    · rintro ⟨_, legible, _⟩
      exact legible
    · intro legible
      exact ⟨reading rows, legible, rfl⟩
  case read =>
    intro rows table read
    obtain ⟨legible, rfl⟩ := (ofRows?_eq_some_iff rows table).mp read
    exact ⟨rfl, time_reading legible⟩
  case back =>
    intro table built fits
    obtain ⟨time, same⟩ := built.eq_build
    have legible : Legible table.written := by
      rw [same]
      exact legible_written_build _ _
    have again : table = reading table.written := by
      rw [same, reading_written_build]
    refine ⟨(ofRows?_eq_some_iff _ _).mpr ⟨legible, again⟩, ?_⟩
    intro row member value valueMember
    exact ⟨legible.entries row member value valueMember,
      written_lt (by decide) fits row member value valueMember⟩

/-- An open ring of two states goes one way only, and is still so after it was written and read. -/
theorem open_ring_of_two_read_back :
    (ring 2 5 false).time 0 1 = some 5 ∧ (ring 2 5 false).time 1 0 = none ∧
      ofRows? (ring 2 5 false).written = some (ring 2 5 false) := by
  have moves := tables_mean_what_they_say.2.2.1 2 5 false
  have fits : ∀ source target cycles,
      (ring 2 5 false).time source target = some cycles → cycles < 2 ^ 63 := by
    intro source target cycles found
    obtain ⟨_, _, ⟨_, rfl⟩ | ⟨_, _, rfl⟩⟩ := (moves source target cycles).mp found
    · decide
    · decide
  exact ⟨by decide, by decide,
    (tables_mean_what_they_say.2.2.2.2.2 _ (.ring 2 5 false) fits).1⟩

end Times

end Avr.Automaton

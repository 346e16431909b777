/-!
Contract: how long each transition of a state machine takes.

Owns:
- square tables of transition times, where an absent time is no transition;
- the builders of the usual shapes.

Staying in a state is always possible and takes no time.
-/

namespace Avr.Automaton

/-- Transition times between `size` states, row by row. -/
structure Times where
  size : Nat
  entries : List (Option Nat)
deriving DecidableEq, Repr

namespace Times

/-- The table with the given times off the diagonal. -/
def build (size : Nat) (time : Nat → Nat → Option Nat) : Times where
  size := size
  entries := (List.range size).flatMap fun source =>
    (List.range size).map fun target => if source = target then some 0 else time source target

/-- One entry of a written table, where `-1` is no transition; no other negative is allowed. -/
def entry? (value : Int) : Option (Option Nat) :=
  if value = -1 then some none
  else if value < 0 then none
  else some (some value.toNat)

/-- One row of a written table. The diagonal must be zero. -/
def row? (index : Nat) (row : List Int) : Option (List (Option Nat)) :=
  if row[index]? = some 0 then row.mapM entry? else none

/-- The table written as rows; refused unless it is square. -/
def ofRows? (rows : List (List Int)) : Option Times :=
  if rows.all fun row => row.length = rows.length then
    let entries? : Option (List (List (Option Nat))) :=
      rows.zipIdx.mapM fun (row, index) => row? index row
    entries?.map fun entries => ⟨rows.length, entries.flatten⟩
  else
    none

/-- Every state reaches every other in `time` cycles. -/
def uniform (size time : Nat) : Times :=
  build size fun _ _ => some time

/-- Every state reaches `hub` in `inward` cycles and is reached from it in `outward` cycles. -/
def bimodal (size hub inward outward : Nat) : Times :=
  build size fun source target =>
    if target = hub then some inward
    else if source = hub then some outward
    else none

/-- Every state reaches the next in `time` cycles, and with `wrap` the last reaches the first. -/
def ring (size time : Nat) (wrap : Bool) : Times :=
  build size fun source target =>
    if target = source + 1 ∨ (wrap ∧ source + 1 = size ∧ target = 0) then some time else none

def time (t : Times) (source target : Nat) : Option Nat :=
  if source < t.size ∧ target < t.size then
    (t.entries[source * t.size + target]?).join
  else
    none

end Times

end Avr.Automaton

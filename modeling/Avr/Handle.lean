/-!
Contract: identity of the objects that watch a simulation or belong to it from outside.

Owns:
- handles, and lists of handles in order of insertion.

Two handles name the same object exactly when they are equal. An object may be in a list more than
once; removal takes its first entry.
-/

namespace Avr

/-- The name of one outside object. -/
structure Handle where
  id : Nat
deriving DecidableEq, Repr, Inhabited

/-- Handles in the order in which they were added. -/
abbrev HandleList := List Handle

namespace HandleList

def insert (handles : HandleList) (h : Handle) : HandleList :=
  handles ++ [h]

/-- The list without the first entry of `h`, and whether there was one. -/
def remove (handles : HandleList) (h : Handle) : HandleList × Bool :=
  (handles.erase h, handles.contains h)

@[simp] theorem remove_snd_iff (handles : HandleList) (h : Handle) :
    (handles.remove h).2 = true ↔ h ∈ handles := by
  simp [remove]

end HandleList

end Avr

import Avr.Proofs.Interrupt.Halves
import Mathlib.Data.List.Basic
import Mathlib.Data.List.Induction

/-!
Contract: the masks of an interrupt table agree with each other and with what was asked of it.

Owns:
- the calls of a table as data, and what a list of them makes of a new table;
- which call of two that undo each other came last;
- every mask, the vector to dispatch and the mark, after any calls.

Posting and enabling are the same change of two masks, so both go through the halves of a pair.
-/

namespace Avr.Interrupt

open Io

/-- A call of the table. -/
inductive Call where
  | post (vector : Nat)
  | unpost (vector : Nat)
  | enable (vector : Nat)
  | disable (vector : Nat)
  /-- Look at the mark, which clears it. -/
  | takeStale
deriving DecidableEq, Repr

namespace Call

/-- Which mask the call changes, whether it sets the vector there, and the vector. -/
def effect? : Call → Option (Half × Bool × Nat)
  | post vector => some (.flags, true, vector)
  | unpost vector => some (.flags, false, vector)
  | enable vector => some (.mask, true, vector)
  | disable vector => some (.mask, false, vector)
  | takeStale => none

/-- The call that sets or clears a vector of a mask. -/
def ofEffect (half : Half) (set : Bool) (vector : Nat) : Call :=
  match half, set with
  | .flags, true => post vector
  | .flags, false => unpost vector
  | .mask, true => enable vector
  | .mask, false => disable vector

variable {call : Call} {half : Half} {set : Bool} {vector : Nat}

theorem effect?_eq_some_iff :
    call.effect? = some (half, set, vector) ↔ call = ofEffect half set vector := by
  constructor
  · intro effect
    cases call <;> cases effect <;> rfl
  · rintro rfl
    cases half <;> cases set <;> rfl

/-- A call that sets came, and the call that undoes it has not come since. -/
def LastOf (sets : Call → Prop) (clears : Call) (calls : List Call) : Prop :=
  ∃ earlier call later, calls = earlier ++ call :: later ∧ sets call ∧ clears ∉ later

variable {sets : Call → Prop} {clears : Call} {calls : List Call}

theorem not_lastOf_nil : ¬ LastOf sets clears [] := by
  rintro ⟨earlier, call, later, split, -, -⟩
  exact List.cons_ne_nil call later (List.append_eq_nil_iff.mp split.symm).2

theorem lastOf_concat :
    LastOf sets clears (calls ++ [call]) ↔
      sets call ∨ (call ≠ clears ∧ LastOf sets clears calls) := by
  constructor
  · rintro ⟨earlier, setting, later, split, setsIt, kept⟩
    rcases List.eq_nil_or_concat later with rfl | ⟨front, last, rfl⟩
    · obtain ⟨-, same⟩ := List.append_inj' split rfl
      cases same
      exact .inl setsIt
    · rw [List.concat_eq_append, ← List.cons_append, ← List.append_assoc] at split
      obtain ⟨rfl, same⟩ := List.append_inj' split rfl
      cases same
      rw [List.concat_eq_append, List.mem_append, not_or, List.mem_singleton] at kept
      exact .inr ⟨Ne.symm kept.2, earlier, setting, front, rfl, setsIt, kept.1⟩
  · rintro (setsIt | ⟨other, earlier, setting, later, rfl, setsIt, kept⟩)
    · exact ⟨calls, call, [], rfl, setsIt, List.not_mem_nil⟩
    · refine ⟨earlier, setting, later ++ [call], by simp, setsIt, ?_⟩
      rw [List.mem_append, not_or, List.mem_singleton]
      exact ⟨kept, Ne.symm other⟩

end Call

namespace Table

/-- The table after a call, unless it refuses the call. -/
def attempt (t : Table) : Call → Except Fault Table
  | .post vector => t.post vector
  | .unpost vector => t.unpost vector
  | .enable vector => t.enable vector
  | .disable vector => t.disable vector
  | .takeStale => .ok t.takeStale.2

/-- What a call leaves behind, which is the same table if the call is refused. -/
def perform (t : Table) (call : Call) : Table :=
  match t.attempt call with
  | .ok next => next
  | .error _ => t

/-- A new table of a size after some calls. -/
def after (size : Nat) (calls : List Call) : Table :=
  calls.foldl perform (new size)

theorem after_concat (size : Nat) (calls : List Call) (call : Call) :
    after size (calls ++ [call]) = (after size calls).perform call :=
  List.foldl_concat _ _ _ _

/-! ### One call -/

/-- A sound table in which only vectors with a slot are enabled. -/
structure Consistent (t : Table) : Prop extends Sound t where
  enabled_lt : ∀ vector, t.enabled.getLsbD vector = true → vector < t.size

/-- A call marks a table of that size if it sets a vector that has a slot. -/
def Marks (size : Nat) (call : Call) : Prop :=
  ∃ vector < size, call = .post vector ∨ call = .enable vector

variable {t next : Table} {half : Half} {set : Bool} {vector : Nat} {call : Call}

theorem attempt_of_effect (effect : call.effect? = some (half, set, vector)) :
    t.attempt call = half.change set t vector := by
  cases call <;> cases effect <;> rfl

theorem change_of_outside (half : Half) (set : Bool) (outside : t.size ≤ vector) :
    half.change set t vector = .error (.invalidInterrupt vector t.size) := by
  have refused : t.check vector = .error (.invalidInterrupt vector t.size) :=
    if_neg (Nat.not_lt.mpr outside)
  cases half <;> cases set <;>
    simp only [Half.change, post, unpost, enable, disable, refused] <;> rfl

theorem attempt_of_outside (effect : call.effect? = some (half, set, vector))
    (outside : t.size ≤ vector) : t.attempt call = .error (.invalidInterrupt vector t.size) := by
  rw [attempt_of_effect effect, change_of_outside half set outside]

theorem perform_of_outside (effect : call.effect? = some (half, set, vector))
    (outside : t.size ≤ vector) : t.perform call = t := by
  rw [perform, attempt_of_outside effect outside]

theorem perform_of_change (effect : call.effect? = some (half, set, vector))
    (changed : half.change set t vector = .ok next) : t.perform call = next := by
  rw [perform, attempt_of_effect effect, changed]

theorem attempt_of_inside (effect : call.effect? = some (half, set, vector))
    (inside : vector < t.size) : t.attempt call = .ok (t.perform call) := by
  obtain ⟨next, changed⟩ := half.exists_change set inside
  rw [perform_of_change effect changed, attempt_of_effect effect, changed]

/-- A call clears the mark, is refused, or changes a vector that has a slot. -/
theorem perform_cases (t : Table) (call : Call) :
    (call = .takeStale ∧ t.perform call = { t with stale := false }) ∨
      ∃ half set vector, call.effect? = some (half, set, vector) ∧
        ((t.size ≤ vector ∧ t.perform call = t) ∨
          (vector < t.size ∧ half.change set t vector = .ok (t.perform call))) := by
  cases effect : call.effect? with
  | none =>
      cases call <;> cases effect
      exact .inl ⟨rfl, rfl⟩
  | some parts =>
      obtain ⟨half, set, vector⟩ := parts
      refine .inr ⟨half, set, vector, rfl, ?_⟩
      rcases Nat.lt_or_ge vector t.size with inside | outside
      · exact .inr ⟨inside, attempt_of_effect effect ▸ attempt_of_inside effect inside⟩
      · exact .inl ⟨outside, perform_of_outside effect outside⟩

theorem size_perform (t : Table) (call : Call) : (t.perform call).size = t.size := by
  obtain ⟨-, taken⟩ | ⟨half, set, vector, -, ⟨-, same⟩ | ⟨-, changed⟩⟩ := perform_cases t call
  · rw [taken]
  · rw [same]
  · exact half.size_of_change set changed

theorem Consistent.change (consistent : t.Consistent)
    (changed : half.change set t vector = .ok next) : next.Consistent where
  toSound := consistent.toSound.change (half.isChange set changed)
  enabled_lt := by
    intro other isSet
    rw [half.size_of_change set changed]
    cases half with
    | flags =>
        cases set <;> obtain ⟨-, rfl⟩ := check_bind_eq_ok changed <;>
          exact consistent.enabled_lt other isSet
    | mask =>
        cases set with
        | false =>
            obtain ⟨-, rfl⟩ := check_bind_eq_ok changed
            simp only [update, BitVec.getLsbD_and, Bool.and_eq_true] at isSet
            exact consistent.enabled_lt other isSet.1
        | true =>
            obtain ⟨inside, rfl⟩ := check_bind_eq_ok changed
            simp only [update, single, BitVec.getLsbD_or, BitVec.getLsbD_twoPow, Bool.or_eq_true,
              Bool.and_eq_true, decide_eq_true_eq] at isSet
            rcases isSet with old | ⟨-, rfl⟩
            · exact consistent.enabled_lt other old
            · exact inside

theorem Consistent.perform (consistent : t.Consistent) (call : Call) :
    (t.perform call).Consistent := by
  obtain ⟨-, taken⟩ | ⟨half, set, vector, -, ⟨-, same⟩ | ⟨-, changed⟩⟩ := perform_cases t call
  · rw [taken]
    exact ⟨consistent.toSound.with_stale false, consistent.enabled_lt⟩
  · rwa [same]
  · exact consistent.change changed

theorem Consistent.clear_of_outside (consistent : t.Consistent) (outside : t.size ≤ vector) :
    t.posted.getLsbD vector = false ∧ t.enabled.getLsbD vector = false ∧
      t.pending.getLsbD vector = false := by
  have posted : t.posted.getLsbD vector = false :=
    Bool.eq_false_iff.mpr fun isSet => Nat.not_lt.mpr outside (consistent.posted_lt vector isSet)
  have enabled : t.enabled.getLsbD vector = false :=
    Bool.eq_false_iff.mpr fun isSet => Nat.not_lt.mpr outside (consistent.enabled_lt vector isSet)
  refine ⟨posted, enabled, ?_⟩
  rw [consistent.pending_eq, BitVec.getLsbD_and, posted, Bool.false_and]

/-- A vector of a mask is as the call says, if the call is about it, and as it was otherwise. -/
theorem drives_perform (sound : t.Sound) (half : Half) {vector : Nat} (inside : vector < t.size)
    (call : Call) :
    half.drives (t.perform call) vector = true ↔ call = .ofEffect half true vector ∨
      (call ≠ .ofEffect half false vector ∧ half.drives t vector = true) := by
  obtain ⟨rfl, taken⟩ | ⟨half', set, vector', effect, done⟩ := perform_cases t call
  · rw [taken]
    cases half <;> simp [Half.drives, isPosted, isEnabled, holds, Call.ofEffect]
  have about (set' : Bool) : call = .ofEffect half set' vector ↔
      half' = half ∧ set = set' ∧ vector' = vector := by
    rw [← Call.effect?_eq_some_iff, effect, Option.some_inj, Prod.mk.injEq, Prod.mk.injEq]
  rw [ne_eq, about, about]
  obtain ⟨outside, same⟩ | ⟨-, changed⟩ := done
  · have elsewhere : vector' ≠ vector := by
      rintro rfl
      exact Nat.not_lt.mpr outside inside
    simp [same, elsewhere]
  · by_cases mine : half' = half
    · subst mine
      rw [half'.drives_of_change sound changed]
      by_cases here : vector' = vector
      · subst here
        cases set <;> simp
      · simp [here, Ne.symm here]
    · rw [half'.drives_of_change_other changed (Ne.symm mine)]
      simp [mine]

/-- A call that sets a vector marks the table; nothing but a look at the mark clears it. -/
theorem stale_perform (t : Table) (call : Call) :
    (t.perform call).stale = true ↔
      Marks t.size call ∨ (call ≠ .takeStale ∧ t.stale = true) := by
  obtain ⟨rfl, taken⟩ | ⟨half, set, vector, effect, done⟩ := perform_cases t call
  · rw [taken]
    simp [Marks]
  obtain rfl := Call.effect?_eq_some_iff.mp effect
  obtain ⟨outside, same⟩ | ⟨inside, changed⟩ := done
  · have refused : ¬ vector < t.size := Nat.not_lt.mpr outside
    rw [same]
    cases half <;> cases set <;> simp [Marks, Call.ofEffect, refused]
  · cases half <;> cases set <;>
      obtain ⟨-, made⟩ := check_bind_eq_ok changed <;>
      rw [← made] <;> simp [Marks, Call.ofEffect, update, inside]

/-! ### Any calls -/

theorem consistent_after (size : Nat) (calls : List Call) : (after size calls).Consistent := by
  induction calls using List.reverseRecOn with
  | nil => exact ⟨sound_new size, by simp [after, new]⟩
  | append_singleton calls call inductionHypothesis =>
      rw [after_concat]
      exact inductionHypothesis.perform call

theorem size_after (size : Nat) (calls : List Call) :
    (after size calls).size = min size maxVectors := by
  induction calls using List.reverseRecOn with
  | nil => rfl
  | append_singleton calls call inductionHypothesis =>
      rw [after_concat, size_perform, inductionHypothesis]

theorem drives_after (size : Nat) (calls : List Call) (half : Half) (vector : Nat) :
    half.drives (after size calls) vector = true ↔ vector < min size maxVectors ∧
      Call.LastOf (· = .ofEffect half true vector) (.ofEffect half false vector) calls := by
  by_cases inside : vector < min size maxVectors
  · simp only [inside, true_and]
    induction calls using List.reverseRecOn with
    | nil =>
        simp only [Call.not_lastOf_nil, iff_false]
        cases half <;> simp [after, new, Half.drives, isPosted, isEnabled, holds]
    | append_singleton calls call inductionHypothesis =>
        have slot : vector < (after size calls).size := by rwa [size_after]
        rw [after_concat, drives_perform (consistent_after size calls).toSound half slot,
          Call.lastOf_concat, inductionHypothesis]
  · rw [← size_after size calls] at inside
    rw [← size_after size calls]
    cases half <;> simp [Half.drives, isPosted, isEnabled, holds, inside]

theorem stale_after (size : Nat) (calls : List Call) :
    (after size calls).stale = true ↔
      Call.LastOf (Marks (min size maxVectors)) .takeStale calls := by
  induction calls using List.reverseRecOn with
  | nil => simp [Call.not_lastOf_nil, after, new]
  | append_singleton calls call inductionHypothesis =>
      rw [after_concat, stale_perform, Call.lastOf_concat, inductionHypothesis, size_after]

theorem Sound.isPending_eq_getLsbD (sound : t.Sound) (vector : Nat) :
    t.isPending vector = t.pending.getLsbD vector :=
  Bool.eq_iff_iff.mpr sound.isPending_iff

theorem Sound.first?_eq_some (sound : t.Sound) :
    t.first? = some vector ↔
      t.isPending vector = true ∧ ∀ lower < vector, t.isPending lower = false := by
  simp only [first?_eq_some_iff, sound.isPending_eq_getLsbD]

theorem Sound.first?_eq_none (sound : t.Sound) :
    t.first? = none ↔ ∀ vector, t.isPending vector = false := by
  simp only [first?_eq_none_iff, sound.isPending_eq_getLsbD]
  constructor
  · intro empty vector
    simp [empty]
  · intro noneSet
    exact BitVec.eq_of_getLsbD_eq fun vector _ => by simpa using noneSet vector

/-- The masks of a table agree with each other and with all that was asked of it.

After any calls of a table of any size, of which it has 64 slots at most, pending is posted and
enabled, and no bit is set that has no slot. A vector is posted, or enabled, if the last call that
posted or unposted it, enabled or disabled it, says so; the calls about other vectors do not matter.
The vector to dispatch is the lowest that is pending, and there is none only while none is pending.
The mark is set if a vector was posted or enabled since it was last looked at. A vector without a
slot is refused, and the refused call leaves the table as it is. -/
theorem masks_stay_consistent (size : Nat) (calls : List Call) :
    let t := after size calls
    t.size = min size maxVectors ∧
      t.pending = t.posted &&& t.enabled ∧
      (∀ vector, t.size ≤ vector → t.posted.getLsbD vector = false ∧
        t.enabled.getLsbD vector = false ∧ t.pending.getLsbD vector = false) ∧
      (∀ vector,
        (t.isPosted vector = true ↔
          vector < t.size ∧ Call.LastOf (· = .post vector) (.unpost vector) calls) ∧
        (t.isEnabled vector = true ↔
          vector < t.size ∧ Call.LastOf (· = .enable vector) (.disable vector) calls) ∧
        t.isPending vector = (t.isPosted vector && t.isEnabled vector)) ∧
      (∀ vector, t.first? = some vector ↔
        t.isPending vector = true ∧ ∀ lower < vector, t.isPending lower = false) ∧
      (t.first? = none ↔ ∀ vector, t.isPending vector = false) ∧
      (t.stale = true ↔ Call.LastOf
        (fun call => ∃ vector < t.size, call = .post vector ∨ call = .enable vector)
        .takeStale calls) ∧
      ∀ vector, ∀ call ∈ [Call.post vector, .unpost vector, .enable vector, .disable vector],
        (vector < t.size → t.attempt call = .ok (t.perform call)) ∧
          (t.size ≤ vector → t.attempt call = .error (.invalidInterrupt vector t.size) ∧
            t.perform call = t) := by
  intro t
  have consistent : t.Consistent := consistent_after size calls
  have sized : t.size = min size maxVectors := size_after size calls
  refine ⟨sized, consistent.pending_eq, fun _ => consistent.clear_of_outside, ?vectors,
    fun _ => consistent.first?_eq_some, consistent.first?_eq_none, ?mark, ?answers⟩
  case vectors =>
    intro vector
    rw [sized]
    exact ⟨drives_after size calls .flags vector, drives_after size calls .mask vector,
      consistent.isPending_eq vector⟩
  case mark =>
    rw [sized]
    exact stale_after size calls
  case answers =>
    intro vector call listed
    obtain ⟨half, set, effect⟩ : ∃ half set, call.effect? = some (half, set, vector) := by
      simp only [List.mem_cons, List.not_mem_nil, or_false] at listed
      rcases listed with rfl | rfl | rfl | rfl <;> exact ⟨_, _, rfl⟩
    exact ⟨attempt_of_inside effect, fun outside =>
      ⟨attempt_of_outside effect outside, perform_of_outside effect outside⟩⟩

/-- Vector 63 of a full table goes through its mask like any other, and vector 64 is refused. -/
example : (after 200 [.post 63, .post 64, .takeStale, .enable 63, .unpost 3]).first? = some 63 ∧
    (after 200 [.post 63, .enable 63, .takeStale, .post 64]).stale = false := by decide +kernel

end Table

end Avr.Interrupt

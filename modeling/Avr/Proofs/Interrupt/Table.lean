import Avr.Interrupt.Table

/-!
Contract: what holds of every interrupt table.

Owns:
- the invariant: pending is posted and enabled, and only vectors with a slot are posted;
- its preservation by every operation;
- the choice of the vector to dispatch.
-/

namespace Avr.Interrupt.Table

structure Sound (t : Table) : Prop where
  pending_eq : t.pending = t.posted &&& t.enabled
  size_le : t.size ≤ maxVectors
  posted_lt : ∀ vector, t.posted.getLsbD vector = true → vector < t.size

variable {t next : Table} {vector : Nat}

theorem sound_new (size : Nat) : (new size).Sound where
  pending_eq := by simp [new]
  size_le := Nat.min_le_right size maxVectors
  posted_lt := by simp [new]

/-- An operation succeeds only on a vector that has a slot. -/
theorem check_bind_eq_ok {change : Table}
    (changed : (do t.check vector; return change) = Except.ok next) :
    vector < t.size ∧ change = next := by
  by_cases inside : vector < t.size
  · simpa [check, inside, Bind.bind, Except.bind, Pure.pure, Except.pure] using changed
  · simp [check, inside, Bind.bind, Except.bind] at changed

/-- One operation of whoever uses the table. -/
inductive Change (t next : Table) : Prop where
  | post (vector : Nat) (changed : t.post vector = .ok next)
  | unpost (vector : Nat) (changed : t.unpost vector = .ok next)
  | enable (vector : Nat) (changed : t.enable vector = .ok next)
  | disable (vector : Nat) (changed : t.disable vector = .ok next)

theorem Sound.change (sound : t.Sound) (change : t.Change next) : next.Sound := by
  cases change with
  | post vector changed =>
      obtain ⟨inside, rfl⟩ := check_bind_eq_ok changed
      refine ⟨rfl, sound.size_le, ?_⟩
      intro other isPosted
      simp only [update, BitVec.getLsbD_or, single, BitVec.getLsbD_twoPow, Bool.or_eq_true,
        Bool.and_eq_true, decide_eq_true_eq] at isPosted
      rcases isPosted with old | ⟨_, rfl⟩
      · exact sound.posted_lt other old
      · exact inside
  | unpost vector changed =>
      obtain ⟨_, rfl⟩ := check_bind_eq_ok changed
      refine ⟨rfl, sound.size_le, ?_⟩
      intro other isPosted
      simp only [update, BitVec.getLsbD_and, Bool.and_eq_true] at isPosted
      exact sound.posted_lt other isPosted.1
  | enable vector changed =>
      obtain ⟨_, rfl⟩ := check_bind_eq_ok changed
      exact ⟨rfl, sound.size_le, sound.posted_lt⟩
  | disable vector changed =>
      obtain ⟨_, rfl⟩ := check_bind_eq_ok changed
      exact ⟨rfl, sound.size_le, sound.posted_lt⟩

/-- A vector becomes pending only with the mark set, and nothing but reading clears the mark. -/
theorem Sound.marks_of_change (sound : t.Sound) (change : t.Change next) :
    next.stale = true ∨ (next.stale = t.stale ∧ (t.pending = 0 → next.pending = 0)) := by
  cases change with
  | post vector changed =>
      obtain ⟨_, rfl⟩ := check_bind_eq_ok changed
      exact .inl rfl
  | unpost vector changed =>
      obtain ⟨_, rfl⟩ := check_bind_eq_ok changed
      refine .inr ⟨rfl, fun empty => ?_⟩
      rw [sound.pending_eq] at empty
      simp only [update]
      rw [BitVec.and_assoc, BitVec.and_comm (~~~single vector), ← BitVec.and_assoc, empty]
      exact BitVec.zero_and
  | enable vector changed =>
      obtain ⟨_, rfl⟩ := check_bind_eq_ok changed
      exact .inl rfl
  | disable vector changed =>
      obtain ⟨_, rfl⟩ := check_bind_eq_ok changed
      refine .inr ⟨rfl, fun empty => ?_⟩
      rw [sound.pending_eq] at empty
      simp only [update]
      rw [← BitVec.and_assoc, empty]
      exact BitVec.zero_and

/-- The mark is not part of the invariant. -/
theorem Sound.with_stale (sound : t.Sound) (stale : Bool) : { t with stale }.Sound :=
  ⟨sound.pending_eq, sound.size_le, sound.posted_lt⟩

theorem Sound.isPending_iff (sound : t.Sound) :
    t.isPending vector = true ↔ t.pending.getLsbD vector = true := by
  simp only [isPending, holds, Bool.and_eq_true, decide_eq_true_eq]
  refine ⟨And.right, fun isSet => ⟨?_, isSet⟩⟩
  rw [sound.pending_eq, BitVec.getLsbD_and, Bool.and_eq_true] at isSet
  exact sound.posted_lt vector isSet.1

theorem Sound.isPending_eq (sound : t.Sound) (vector : Nat) :
    t.isPending vector = (t.isPosted vector && t.isEnabled vector) := by
  simp only [isPending, isPosted, isEnabled, holds, sound.pending_eq, BitVec.getLsbD_and]
  cases decide (vector < t.size) <;> rfl

/-! ### The vector to dispatch -/

theorem first?_eq_none_iff : t.first? = none ↔ t.pending = 0 := by
  simp only [first?, List.find?_eq_none, List.mem_range]
  constructor
  · intro noneSet
    refine BitVec.eq_of_getLsbD_eq ?_
    intro i inside
    simpa using noneSet i inside
  · intro empty i _
    simp [empty]

/-- The vector to dispatch is the lowest one that is pending. -/
theorem first?_eq_some_iff :
    t.first? = some vector ↔ t.pending.getLsbD vector = true ∧
      ∀ lower < vector, t.pending.getLsbD lower = false := by
  rw [first?, List.find?_range_eq_some]
  simp only [List.mem_range, Bool.not_eq_true']
  constructor
  · rintro ⟨isSet, _, others⟩
    exact ⟨isSet, others⟩
  · rintro ⟨isSet, others⟩
    exact ⟨isSet, BitVec.lt_of_getLsbD isSet, others⟩

/-- With some vector pending the table offers the lowest one. -/
theorem exists_first {pending : Nat} (isPending : t.isPending pending = true) :
    ∃ vector ≤ pending, t.first? = some vector ∧ t.isPending vector = true ∧
      ∀ lower < vector, t.isPending lower = false := by
  simp only [Table.isPending, holds, Bool.and_eq_true, decide_eq_true_eq] at isPending
  obtain ⟨inside, isSet⟩ := isPending
  rcases offered : t.first? with _ | vector
  · rw [first?_eq_none_iff.mp offered] at isSet
    simp at isSet
  · obtain ⟨firstSet, others⟩ := first?_eq_some_iff.mp offered
    have below : vector ≤ pending := by
      refine Nat.le_of_not_lt fun above => ?_
      rw [others pending above] at isSet
      cases isSet
    refine ⟨vector, below, rfl, ?_, fun lower under => ?_⟩
    · simp only [Table.isPending, holds, firstSet, Nat.lt_of_le_of_lt below inside, decide_true,
        Bool.and_true]
    · simp only [Table.isPending, holds, others lower under, Bool.and_false]

end Avr.Interrupt.Table

import Avr.Time.Prescaler

/-!
Contract: the ticks of a clock that is driven by another one.

Owns:
- what is done with a prescaler over time, as the stretches of driver cycles between its resets;
- the count of ticks as what these stretches come to, each for itself;
- the first driver cycle at which a count is reached, which is where an event in ticks is placed
  as long as a word can hold the driver cycles up to there.

A tick that a reset cuts off is lost: what is left of a stretch does not count for the next one.
-/

namespace Avr.Time.Prescaler

/-- Ticks that are counted in stretches of driver cycles; every stretch begins a tick of its own. -/
def ticksIn (divider : Nat) : (stretches : List Nat) → Nat
  | [] => 0
  | cycles :: rest => cycles / max divider 1 + ticksIn divider rest

theorem ticksIn_concat (divider : Nat) (stretches : List Nat) (last : Nat) :
    ticksIn divider (stretches ++ [last]) = ticksIn divider stretches + last / max divider 1 := by
  induction stretches with
  | nil => exact Nat.add_comm _ 0
  | cons first rest inductionHypothesis =>
      rw [List.cons_append, ticksIn, ticksIn, inductionHypothesis, Nat.add_assoc]

/-- A prescaler over time: created at some driver cycle, left alone while its driver advances, and
reset now and then. The stretches that have ended are listed, the current one began at `since`. -/
inductive Driven (divider : Nat) : (ended : List Nat) → (since now : Nat) → Prescaler → Prop where
  | created (now : Nat) : Driven divider [] now now (new now divider)
  | advance {ended : List Nat} {since now later : Nat} {p : Prescaler}
      (driven : Driven divider ended since now p) (forward : now ≤ later) :
      Driven divider ended since later p
  | reset {ended : List Nat} {since now : Nat} {p : Prescaler}
      (driven : Driven divider ended since now p) :
      Driven divider (ended ++ [now - since]) now now (p.reset now)

/-- What a prescaler remembers of its past. -/
structure Remembers (divider : Nat) (ended : List Nat) (since now : Nat) (p : Prescaler) :
    Prop where
  frequency : p.divider = max divider 1
  base : p.base = since
  past : since ≤ now
  earlier : p.earlier = ticksIn divider ended

variable {divider since now later ticks : Nat} {ended : List Nat} {p : Prescaler}

theorem Remembers.count_eq (remembers : Remembers divider ended since now p) :
    p.count now = ticksIn divider (ended ++ [now - since]) := by
  rw [Prescaler.count, elapsed, remembers.earlier, remembers.base, remembers.frequency,
    ticksIn_concat]

theorem Driven.remembers (driven : Driven divider ended since now p) :
    Remembers divider ended since now p := by
  induction driven with
  | created now => exact ⟨rfl, rfl, Nat.le_refl now, rfl⟩
  | advance driven forward inductionHypothesis =>
      exact { inductionHypothesis with past := Nat.le_trans inductionHypothesis.past forward }
  | reset driven inductionHypothesis =>
      exact ⟨inductionHypothesis.frequency, rfl, Nat.le_refl _, inductionHypothesis.count_eq⟩

/-! ### Counts -/

theorem count_le_count (p : Prescaler) (forward : now ≤ later) : p.count now ≤ p.count later := by
  unfold count elapsed
  apply Nat.add_le_add_left
  apply Nat.div_le_div_right
  exact Nat.sub_le_sub_right forward p.base

/-- A reset keeps the count. -/
theorem count_reset (p : Prescaler) (now : Nat) : (p.reset now).count now = p.count now := by
  show p.count now + (now - now) / p.divider = p.count now
  rw [Nat.sub_self, Nat.zero_div, Nat.add_zero]

/-! ### Events in ticks -/

/-- The first driver cycle after `now` at which the prescaler has counted so many ticks. -/
structure FirstAt (p : Prescaler) (now target time : Nat) : Prop where
  later : now < time
  reached : p.count time = target
  early : ∀ cycle, now ≤ cycle → cycle < time → p.count cycle < target

/-- The current tick has begun already. -/
theorem delay_zero (p : Prescaler) (now : Nat) : p.delay now 0 = 0 := by
  apply Nat.sub_eq_zero_of_le
  calc
    p.boundary now 0 ≤ p.elapsed now / p.divider % wordLimit * p.divider := Nat.mod_le _ _
    _ ≤ p.elapsed now / p.divider * p.divider := Nat.mul_le_mul_right _ (Nat.mod_le _ _)
    _ ≤ p.elapsed now := Nat.div_mul_le_self _ _

/-- A tick that begins below the limit of words begins where it should. -/
theorem boundary_of_lt (positive : 0 < p.divider)
    (fits : (p.elapsed now / p.divider + ticks) * p.divider < wordLimit) :
    p.boundary now ticks = (p.elapsed now / p.divider + ticks) * p.divider := by
  have sum : p.elapsed now / p.divider + ticks < wordLimit :=
    Nat.lt_of_le_of_lt (Nat.le_mul_of_pos_right _ positive) fits
  rw [boundary, Nat.mod_eq_of_lt sum, Nat.mod_eq_of_lt fits]

/-- An event in ticks is placed where the last of them begins. -/
theorem Remembers.firstAt (remembers : Remembers divider ended since now p) (ahead : 1 ≤ ticks)
    (fits : (p.elapsed now / p.divider + ticks) * p.divider < wordLimit) :
    p.FirstAt now (p.count now + ticks) (now + p.delay now ticks) := by
  have positive : 0 < p.divider := by
    rw [remembers.frequency]
    exact Nat.le_max_right divider 1
  have past : p.base ≤ now := remembers.base ▸ remembers.past
  -- The boundary lies behind the elapsed part of the current tick.
  have beyond : p.elapsed now < (p.elapsed now / p.divider + ticks) * p.divider := by
    calc
      p.elapsed now < (p.elapsed now / p.divider + 1) * p.divider :=
        Nat.lt_mul_of_div_lt (Nat.lt_succ_self _) positive
      _ ≤ (p.elapsed now / p.divider + ticks) * p.divider :=
        Nat.mul_le_mul_right _ (Nat.add_le_add_left ahead _)
  have target : p.count now + ticks = p.earlier + (p.elapsed now / p.divider + ticks) :=
    Nat.add_assoc _ _ _
  have wait : p.delay now ticks =
      (p.elapsed now / p.divider + ticks) * p.divider - p.elapsed now := by
    rw [delay, boundary_of_lt positive fits]
  have reached : p.elapsed (now + p.delay now ticks) =
      (p.elapsed now / p.divider + ticks) * p.divider := by
    rw [wait]
    unfold elapsed at beyond ⊢
    omega
  rw [target]
  constructor
  · omega
  · rw [Prescaler.count, reached, Nat.mul_div_cancel _ positive]
  · intro cycle _ before
    have inside : p.elapsed cycle < (p.elapsed now / p.divider + ticks) * p.divider := by
      rw [← reached]
      unfold elapsed
      omega
    apply Nat.add_lt_add_left
    exact Nat.div_lt_of_lt_mul (Nat.mul_comm _ p.divider ▸ inside)

end Avr.Time.Prescaler

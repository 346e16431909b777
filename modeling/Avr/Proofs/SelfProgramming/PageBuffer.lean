import Avr.Proofs.SelfProgramming.Unit

/-!
Contract: the page buffer after any sequence of fills.

Owns:
- the buffer as a fold of the fills over an erased one;
- both bytes of a word as those of its last fill, wherever in flash that was aimed at.
-/

namespace Avr.Machine

/-- The last of some fills whose word is at an even offset of its page. -/
def lastFill? (size offset : Nat) (fills : List Fill) : Option Fill :=
  (fills.filter fun fill =>
    fill.address % size = offset ∨ fill.address % size = offset + 1).getLast?

/-- The page buffer after fills of an erased one. -/
def filledPage (size : Nat) (fills : List Fill) : List UInt8 :=
  fills.foldl (fillWord size) (erasedPage size)

theorem filledPage_append (size : Nat) (fills : List Fill) (fill : Fill) :
    filledPage size (fills ++ [fill]) = fillWord size (filledPage size fills) fill := by
  rw [filledPage, List.foldl_append]
  rfl

theorem length_fillWord (size : Nat) (buffer : List UInt8) (fill : Fill) :
    (fillWord size buffer fill).length = buffer.length := by
  rw [fillWord, fillBuffer, List.length_set, List.length_set]

theorem length_filledPage (size : Nat) (fills : List Fill) :
    (filledPage size fills).length = size := by
  have kept (buffer : List UInt8) :
      (fills.foldl (fillWord size) buffer).length = buffer.length := by
    induction fills generalizing buffer with
    | nil => rfl
    | cons first rest inductionHypothesis =>
        exact (inductionHypothesis _).trans (length_fillWord size buffer first)
  exact (kept _).trans List.length_replicate

/-- A fill of the word at an even offset, or of another word. -/
theorem getElem?_fillWord {size offset : Nat} {buffer : List UInt8}
    (inside : offset + 1 < buffer.length) (even : offset % 2 = 0) (fill : Fill) :
    let here := fill.address % size = offset ∨ fill.address % size = offset + 1
    (fillWord size buffer fill)[offset]? = (if here then some fill.low else buffer[offset]?) ∧
      (fillWord size buffer fill)[offset + 1]? =
        if here then some fill.high else buffer[offset + 1]? := by
  intro here
  have word : here ↔ fill.address % size / 2 * 2 = offset := by omega
  simp only [fillWord, fillBuffer, List.getElem?_set, List.length_set, word]
  grind

theorem lastFill?_cons (size offset : Nat) (first : Fill) (rest : List Fill) :
    lastFill? size offset (first :: rest) =
      if first.address % size = offset ∨ first.address % size = offset + 1 then
        some ((lastFill? size offset rest).getD first)
      else lastFill? size offset rest := by
  rw [lastFill?, List.filter_cons]
  simp only [decide_eq_true_eq]
  split
  · rw [List.getLast?_cons]
    rfl
  · rfl

/-- Both bytes of a word are those of its last fill, or what they were before any. -/
theorem getElem?_foldl_fillWord {size offset : Nat} (inside : offset + 1 < size)
    (even : offset % 2 = 0) (fills : List Fill) {buffer : List UInt8}
    (length : buffer.length = size) {low high : UInt8} (isLow : buffer[offset]? = some low)
    (isHigh : buffer[offset + 1]? = some high) :
    (fills.foldl (fillWord size) buffer)[offset]? =
        some (((lastFill? size offset fills).map Fill.low).getD low) ∧
      (fills.foldl (fillWord size) buffer)[offset + 1]? =
        some (((lastFill? size offset fills).map Fill.high).getD high) := by
  induction fills generalizing buffer low high with
  | nil => exact ⟨isLow, isHigh⟩
  | cons first rest inductionHypothesis =>
      obtain ⟨nowLow, nowHigh⟩ := getElem?_fillWord (length ▸ inside) even first
      have kept := (length_fillWord size buffer first).trans length
      rw [List.foldl_cons, lastFill?_cons]
      split
      · next here =>
        rw [if_pos here] at nowLow nowHigh
        obtain ⟨lastLow, lastHigh⟩ := inductionHypothesis kept nowLow nowHigh
        rw [lastLow, lastHigh]
        cases lastFill? size offset rest <;> exact ⟨rfl, rfl⟩
      · next elsewhere =>
        rw [if_neg elsewhere] at nowLow nowHigh
        exact inductionHypothesis kept (nowLow.trans isLow) (nowHigh.trans isHigh)

theorem getElem?_filledPage {size offset : Nat} (inside : offset + 1 < size)
    (even : offset % 2 = 0) (fills : List Fill) :
    (filledPage size fills)[offset]? =
        some (((lastFill? size offset fills).map Fill.low).getD erasedByte) ∧
      (filledPage size fills)[offset + 1]? =
        some (((lastFill? size offset fills).map Fill.high).getD erasedByte) := by
  refine getElem?_foldl_fillWord inside even fills List.length_replicate ?_ ?_
  · exact List.getElem?_replicate_of_lt (Nat.lt_of_succ_lt inside)
  · exact List.getElem?_replicate_of_lt inside

end Avr.Machine

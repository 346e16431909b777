import Avr.Proofs.Interrupt.Tracked

/-!
Contract: what may happen to a machine with flag pairs.

Owns:
- the operations that reach flags, masks and vectors of pairs, and which vectors they raise;
- chores: such operations between changes that leave the pairs aside, where everyone who is called
  on the way does chores again;
- environments in which everyone who is called does chores;
- operations, chores and steps on machines with their pairs in step.

To post, unpost, enable or disable a vector of a pair directly is no chore, nor is to follow one with
a probe.
-/

namespace Avr

open Avr.Io

variable {World : Type} {pairs : List FlagPair}

namespace Machine

/-- An operation on a machine that may reach flags and masks. -/
inductive Operation (pairs : List FlagPair) where
  | writeIo (register : Nat) (value : UInt8)
  | writeIoBit (register bit : Nat) (value : Bool)
  | writeData (address : UInt16) (value : UInt8)
  | setFlag (pair : FlagPair) (installed : pair ∈ pairs) (bit : Fin 8) (set : Bool)
  | force (vector : Nat)
  | reset

namespace Operation

def perform (env : Environment World) : Operation pairs → Attempt World Unit
  | writeIo register value => Machine.writeIo env register value
  | writeIoBit register bit value => Machine.writeIoBit env register bit value
  | writeData address value => Machine.writeData env address value
  | setFlag pair _ bit set => setFlagBit env pair bit set
  | force vector => forceInterrupt env vector
  | reset => liftM (Machine.reset env)

/-- Whether an operation sets the flag of a vector. -/
def Raises : Operation pairs → Nat → Prop
  | setFlag pair _ bit true, vector => (bit.val, vector) ∈ pair.mapped
  | force forced, vector => vector = forced
  | _, _ => False

/-- Perform an operation, counted in the world beforehand. -/
def performCounted (env : Environment World) (count : World → World) (operation : Operation pairs) :
    Attempt World Unit := do
  modify fun m => { m with world := count m.world }
  operation.perform env

/-- The raisings of an operation are counted, and none is taken back. -/
structure Counted (raisings : World → Nat → Nat) (operation : Operation pairs)
    (count : World → World) : Prop where
  le : ∀ world vector, raisings world vector ≤ raisings (count world) vector
  lt : ∀ world {vector}, operation.Raises vector →
    raisings world vector < raisings (count world) vector

end Operation

/-- What someone does to a machine when called. Operations call others in turn, as an environment of
their own answers them. -/
inductive Chore (pairs : List FlagPair) (raisings : World → Nat → Nat) :
    {α : Type} → Action World α → Prop where
  | done {α : Type} (value : α) : Chore pairs raisings (pure value)
  | andThen {α β : Type} {act : Action World α} {next : α → Action World β}
      (first : Chore pairs raisings act) (rest : ∀ value, Chore pairs raisings (next value)) :
      Chore pairs raisings (act >>= next)
  | aside {α : Type} (act : Action World α) (aside : ∀ m, Aside pairs raisings m (act m).2) :
      Chore pairs raisings act
  | operation {env : Environment World} (counts : env.Counts raisings)
      (notify : ∀ handle hook, Chore pairs raisings (env.notify handle hook))
      (readDevice : ∀ handle, Chore pairs raisings (env.readDevice handle))
      (writeDevice : ∀ handle value, Chore pairs raisings (env.writeDevice handle value).run)
      (readDeviceBit : ∀ handle bit, Chore pairs raisings (env.readDeviceBit handle bit))
      (writeDeviceBit : ∀ handle bit value,
        Chore pairs raisings (env.writeDeviceBit handle bit value).run)
      (operation : Operation pairs) {count : World → World}
      (counted : operation.Counted raisings count) :
      Chore pairs raisings (operation.performCounted env count).run

end Machine

/-- Everyone who is called does chores. -/
structure Environment.Dutiful (env : Environment World) (pairs : List FlagPair)
    (raisings : World → Nat → Nat) : Prop where
  counts : env.Counts raisings
  notify : ∀ handle hook, Machine.Chore pairs raisings (env.notify handle hook)
  readDevice : ∀ handle, Machine.Chore pairs raisings (env.readDevice handle)
  writeDevice : ∀ handle value, Machine.Chore pairs raisings (env.writeDevice handle value).run
  readDeviceBit : ∀ handle bit, Machine.Chore pairs raisings (env.readDeviceBit handle bit)
  writeDeviceBit : ∀ handle bit value,
    Machine.Chore pairs raisings (env.writeDeviceBit handle bit value).run

namespace Machine

open Avr.Interrupt

variable {env : Environment World} {raisings : World → Nat → Nat} {idle : Nat → Prop}
  {start m : Machine World}

/-! ### Operations -/

/-- A vector of no pair may be forced; its device does what it does. -/
theorem keeps_force_of_unwired (counts : env.Counts raisings)
    (upholds : env.Upholds (Tracked pairs raisings idle start)) {vector : Nat}
    (unwired : Unwired pairs vector) :
    Attempt.Respects (Keeps (Tracked pairs raisings idle start)) (forceInterrupt env vector) := by
  have accesses := accesses_tracked counts upholds
  exact .bind (accesses.mirrors_setPosted true unwired).keeps fun _ =>
    .lift (accesses.mirrors_notifyForced vector fun ⟨same, tracked⟩ told =>
      absurd (tracked.notified (same ▸ told)).1 (unwired _ _)).keeps

theorem Tracked.resetCore (tracked : Tracked pairs raisings idle start m) :
    Tracked pairs raisings idle start m.resetCore := by
  refine Tracked.setStackPointer ?_ m.part.stackTop
  exact tracked.of_eq rfl rfl rfl rfl rfl

/-- An operation keeps the pairs in step, if what it raises counts as raised. -/
theorem Tracked.perform (counts : env.Counts raisings)
    (upholds : env.Upholds (Tracked pairs raisings idle start))
    (tracked : Tracked pairs raisings idle start m) (operation : Operation pairs)
    (raised : ∀ {vector}, operation.Raises vector →
      raisings start.world vector < raisings m.world vector) :
    Tracked pairs raisings idle start ((operation.perform env).run m).2 := by
  have stepwise := stepwise_tracked counts upholds
  cases operation with
  | writeIo register value =>
      exact (stepwise.mirrors_writeIo register value).keeps.run.related m tracked
  | writeIoBit register bit value =>
      exact (stepwise.mirrors_writeIoBit register bit value).keeps.run.related m tracked
  | writeData address value =>
      exact (stepwise.mirrors_writeData address value).keeps.run.related m tracked
  | setFlag pair installed bit set =>
      obtain ⟨next, ran, after⟩ := tracked.exists_setFlagBit env installed bit.isLt set
        fun sets vector mapped => raised (by subst sets; exact mapped)
      rw [Operation.perform, ran]
      exact after
  | force vector =>
      by_cases wired : ∃ pair bit, Wired pairs pair bit vector
      · obtain ⟨pair, bit, wired⟩ := wired
        obtain ⟨table, ran, masked⟩ := tracked.toMaskedBut.exists_force env wired
        rw [Operation.perform, ran]
        refine tracked.withFlag masked wired.1 (tracked.layout.bits wired) fun _ other mapped => ?_
        exact raised (FlagPair.vector_unique mapped wired.2)
      · have unwired : Unwired pairs vector := fun pair bit found => wired ⟨pair, bit, found⟩
        exact (keeps_force_of_unwired counts upholds unwired).run.related m tracked
  | reset =>
      have resets : Action.Respects (Keeps (Tracked pairs raisings idle start)) (reset env) :=
        .bind .get fun _ => .bind (stepwise.mirrors_note _).keeps fun _ =>
          .modify fun _ => Tracked.resetCore
      exact resets.related m tracked

theorem keeps_performCounted (counts : env.Counts raisings)
    (upholds : env.Upholds (Tracked pairs raisings idle start)) (operation : Operation pairs)
    {count : World → World} (counted : operation.Counted raisings count) :
    Attempt.Respects (Keeps (Tracked pairs raisings idle start))
      (operation.performCounted env count) := by
  refine ⟨⟨fun m tracked => ?_⟩⟩
  have before : Tracked pairs raisings idle start { m with world := count m.world } :=
    tracked.of_aside (.of_eq rfl rfl rfl id (counted.le m.world))
  exact before.perform counts upholds operation fun raises =>
    Nat.lt_of_le_of_lt (tracked.counted _) (counted.lt m.world raises)

/-! ### Chores -/

theorem Chore.keeps {α : Type} {act : Action World α} (chore : Chore pairs raisings act) :
    Action.Respects (Keeps (Tracked pairs raisings idle start)) act := by
  induction chore with
  | done value => exact .pure value
  | andThen _ _ first rest => exact .bind first rest
  | aside act aside => exact ⟨fun m tracked => tracked.of_aside (aside m)⟩
  | operation counts _ _ _ _ _ operation counted notify readDevice writeDevice readDeviceBit
      writeDeviceBit =>
      exact (keeps_performCounted counts
        { notify := notify
          readDevice := readDevice
          writeDevice := fun handle value => ⟨writeDevice handle value⟩
          readDeviceBit := readDeviceBit
          writeDeviceBit := fun handle bit value => ⟨writeDeviceBit handle bit value⟩ }
        operation counted).run

theorem upholds_of_dutiful (dutiful : env.Dutiful pairs raisings) (idle : Nat → Prop)
    (start : Machine World) : env.Upholds (Tracked pairs raisings idle start) where
  notify handle hook := (dutiful.notify handle hook).keeps
  readDevice handle := (dutiful.readDevice handle).keeps
  writeDevice handle value := ⟨(dutiful.writeDevice handle value).keeps⟩
  readDeviceBit handle bit := (dutiful.readDeviceBit handle bit).keeps
  writeDeviceBit handle bit value := ⟨(dutiful.writeDeviceBit handle bit value).keeps⟩

end Machine

end Avr

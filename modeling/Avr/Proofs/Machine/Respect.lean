import Avr.Machine.State
import Mathlib.Order.Defs.Unbundled

/-!
Contract: what a computation on a machine can have done, as a relation between before and after.

Owns:
- the statement that a computation, whatever it results in, only takes a machine to related ones;
- how the statement follows from that of the parts of a computation;
- environments of which it holds, whatever they call;
- the statement that a computation which may fail establishes a property.

The relations are preorders, so computations can be put one after the other.
-/

namespace Avr

variable {World α β ε : Type} {R : Machine World → Machine World → Prop}

/-- A property that holds afterwards if it holds before. -/
def Machine.Keeps (P : Machine World → Prop) (m next : Machine World) : Prop :=
  P m → P next

instance (P : Machine World → Prop) : IsPreorder (Machine World) (Machine.Keeps P) where
  refl _ := id
  trans _ _ _ first second := second ∘ first

/-! ### Computations that cannot fail -/

theorem Action.apply_bind (act : Action World α) (next : α → Action World β) (m : Machine World) :
    (act >>= next) m = next (act m).1 (act m).2 := rfl

theorem Action.apply_get_bind (next : Machine World → Action World β) (m : Machine World) :
    ((get : Action World (Machine World)) >>= next) m = next m m := rfl

/-- Every machine is related to the one that the computation leaves. -/
structure Action.Respects (R : Machine World → Machine World → Prop) (act : Action World α) :
    Prop where
  related : ∀ m, R m (act m).2

namespace Action.Respects

theorem mono {R' : Machine World → Machine World → Prop} {act : Action World α}
    (weaker : ∀ m next, R m next → R' m next) (respects : Respects R act) : Respects R' act :=
  ⟨fun m => weaker m _ (respects.related m)⟩

theorem and {R' : Machine World → Machine World → Prop} {act : Action World α}
    (respects : Respects R act) (respects' : Respects R' act) :
    Respects (fun m next => R m next ∧ R' m next) act :=
  ⟨fun m => ⟨respects.related m, respects'.related m⟩⟩

theorem modify {change : Machine World → Machine World} (related : ∀ m, R m (change m)) :
    Respects R (modify change : Action World Unit) :=
  ⟨related⟩

variable [IsPreorder (Machine World) R]

theorem pure (value : α) : Respects R (pure value : Action World α) :=
  ⟨fun m => refl_of R m⟩

theorem get : Respects R (get : Action World (Machine World)) :=
  ⟨fun m => refl_of R m⟩

theorem bind {act : Action World α} {next : α → Action World β} (first : Respects R act)
    (rest : ∀ value, Respects R (next value)) : Respects R (act >>= next) where
  related m := trans_of R (first.related m) ((rest (act m).1).related (act m).2)

theorem forM {act : α → Action World PUnit} (each : ∀ value, Respects R (act value))
    (values : List α) : Respects R (values.forM act) := by
  induction values with
  | nil => exact .pure _
  | cons value rest inductionHypothesis => exact .bind (each value) fun _ => inductionHypothesis

end Action.Respects

/-! ### Computations that may fail -/

namespace Attempt

/-- A computation goes on exactly if its first part has not failed. -/
theorem run_bind (act : ExceptT ε (Action World) α) (next : α → ExceptT ε (Action World) β)
    (m : Machine World) :
    (act >>= next).run m =
      match act.run m with
      | (.ok value, middle) => (next value).run middle
      | (.error fault, middle) => (.error fault, middle) := by
  simp only [Bind.bind, ExceptT.bind, ExceptT.mk, ExceptT.run, StateT.bind, ExceptT.bindCont]
  rcases act m with ⟨fault | value, middle⟩ <;> rfl

theorem run_bind_eq_ok {act : ExceptT ε (Action World) α} {next : α → ExceptT ε (Action World) β}
    {m last : Machine World} {result : β} (ran : (act >>= next).run m = (.ok result, last)) :
    ∃ value middle, act.run m = (.ok value, middle) ∧
      (next value).run middle = (.ok result, last) := by
  rw [run_bind] at ran
  rcases first : act.run m with ⟨fault | value, middle⟩ <;> rw [first] at ran
  · cases ran
  · exact ⟨value, middle, rfl, ran⟩

theorem run_lift (act : Action World α) (m : Machine World) :
    (liftM act : ExceptT ε (Action World) α).run m = (.ok (act m).1, (act m).2) := rfl

theorem run_get (m : Machine World) :
    (get : ExceptT ε (Action World) (Machine World)).run m = (.ok m, m) := rfl

theorem run_attempt (change : Machine World → Except Fault (Machine World))
    (m : Machine World) :
    (Machine.attempt change).run m =
      match change m with
      | .ok next => (.ok (), next)
      | .error fault => (.error fault, m) := by
  rw [Machine.attempt, run_bind, run_get]
  rcases changed : change m with fault | next <;> simp only [changed] <;> rfl

theorem run_tryCatch (act : ExceptT ε (Action World) α)
    (handle : ε → ExceptT ε (Action World) α) (m : Machine World) :
    (tryCatch act handle).run m =
      match act.run m with
      | (.ok value, next) => (.ok value, next)
      | (.error fault, next) => (handle fault).run next := by
  simp only [tryCatch, tryCatchThe, MonadExceptOf.tryCatch, ExceptT.tryCatch, ExceptT.mk,
    ExceptT.run, Bind.bind, StateT.bind]
  rcases act m with ⟨fault | value, next⟩ <;> rfl

end Attempt

/-- Every machine is related to the one that the computation leaves, also when it fails. -/
structure Attempt.Respects (R : Machine World → Machine World → Prop)
    (act : ExceptT ε (Action World) α) : Prop where
  run : Action.Respects R act.run

namespace Attempt.Respects

theorem mono {R' : Machine World → Machine World → Prop} {act : ExceptT ε (Action World) α}
    (weaker : ∀ m next, R m next → R' m next) (respects : Respects R act) : Respects R' act :=
  ⟨respects.run.mono weaker⟩

theorem lift {act : Action World α} (respects : Action.Respects R act) :
    Respects R (liftM act : ExceptT ε (Action World) α) :=
  ⟨⟨respects.related⟩⟩

theorem modify {change : Machine World → Machine World} (related : ∀ m, R m (change m)) :
    Respects R (modify change : ExceptT ε (Action World) Unit) :=
  ⟨⟨related⟩⟩

theorem answer {change : Machine World → Machine World × α}
    (related : ∀ m, R m (change m).1) :
    Respects R (Machine.answer change : ExceptT ε (Action World) α) :=
  ⟨⟨related⟩⟩

variable [IsPreorder (Machine World) R]

theorem pure (value : α) : Respects R (pure value : ExceptT ε (Action World) α) :=
  ⟨.pure _⟩

theorem throw (fault : ε) : Respects R (throw fault : ExceptT ε (Action World) α) :=
  ⟨.pure _⟩

theorem get : Respects R (get : ExceptT ε (Action World) (Machine World)) :=
  ⟨⟨fun m => refl_of R m⟩⟩

theorem bind {act : ExceptT ε (Action World) α} {next : α → ExceptT ε (Action World) β}
    (first : Respects R act) (rest : ∀ value, Respects R (next value)) :
    Respects R (act >>= next) := by
  refine ⟨⟨fun m => ?_⟩⟩
  have before := first.run.related m
  rw [run_bind]
  split
  case h_1 value middle ran =>
    rw [ran] at before
    exact trans_of R before ((rest value).run.related middle)
  case h_2 fault middle ran =>
    rw [ran] at before
    exact before

theorem attempt {change : Machine World → Except Fault (Machine World)}
    (related : ∀ m next, change m = .ok next → R m next) :
    Respects R (Machine.attempt change) := by
  refine ⟨⟨fun m => ?_⟩⟩
  rw [run_attempt]
  split
  case h_1 next changed => exact related m next changed
  case h_2 => exact refl_of R m

end Attempt.Respects

/-- Everything that an environment calls only takes a machine to related ones. -/
structure Environment.Within (env : Environment World) (R : Machine World → Machine World → Prop) :
    Prop where
  notify : ∀ handle hook, Action.Respects R (env.notify handle hook)
  readDevice : ∀ handle, Action.Respects R (env.readDevice handle)
  writeDevice : ∀ handle value, Attempt.Respects R (env.writeDevice handle value)
  readDeviceBit : ∀ handle bit, Action.Respects R (env.readDeviceBit handle bit)
  writeDeviceBit : ∀ handle bit value, Attempt.Respects R (env.writeDeviceBit handle bit value)

theorem Environment.Within.and {env : Environment World}
    {R' : Machine World → Machine World → Prop} (within : env.Within R) (within' : env.Within R') :
    env.Within fun m next => R m next ∧ R' m next where
  notify handle hook := (within.notify handle hook).and (within'.notify handle hook)
  readDevice handle := (within.readDevice handle).and (within'.readDevice handle)
  writeDevice handle value :=
    ⟨(within.writeDevice handle value).run.and (within'.writeDevice handle value).run⟩
  readDeviceBit handle bit :=
    (within.readDeviceBit handle bit).and (within'.readDeviceBit handle bit)
  writeDeviceBit handle bit value :=
    ⟨(within.writeDeviceBit handle bit value).run.and (within'.writeDeviceBit handle bit value).run⟩

theorem Environment.Within.mono {env : Environment World}
    {R' : Machine World → Machine World → Prop}
    (weaker : ∀ m next, R m next → R' m next) (within : env.Within R) : env.Within R' where
  notify handle hook := (within.notify handle hook).mono weaker
  readDevice handle := (within.readDevice handle).mono weaker
  writeDevice handle value := (within.writeDevice handle value).mono weaker
  readDeviceBit handle bit := (within.readDeviceBit handle bit).mono weaker
  writeDeviceBit handle bit value := (within.writeDeviceBit handle bit value).mono weaker

/-! ### Outcomes -/

/-- From machines with `P` a computation that completes leaves one with `Q`, and one that fails
leaves one with `E`. -/
structure Attempt.Ensures (P : Machine World → Prop) (act : ExceptT ε (Action World) α)
    (Q : Machine World → Prop) (E : ε → Machine World → Prop) : Prop where
  completed : ∀ m value next, P m → act.run m = (.ok value, next) → Q next
  failed : ∀ m fault next, P m → act.run m = (.error fault, next) → E fault next

namespace Attempt.Ensures

variable {P Q S : Machine World → Prop} {E : ε → Machine World → Prop}

theorem of_keeps {act : ExceptT ε (Action World) α} (respects : Respects (Machine.Keeps P) act)
    (failure : ∀ fault m, P m → E fault m) : Ensures P act P E where
  completed m value next before ran := by
    have after := respects.run.related m before
    rwa [ran] at after
  failed m fault next before ran := by
    have after := respects.run.related m before
    rw [ran] at after
    exact failure fault next after

/-- Whatever it results in, the computation leaves a machine with `Q`. -/
theorem of_holds {act : ExceptT ε (Action World) α} (holds : ∀ m, P m → Q (act.run m).2) :
    Ensures P act Q fun _ => Q where
  completed m value next before ran := by
    have after := holds m before
    rwa [ran] at after
  failed m fault next before ran := by
    have after := holds m before
    rwa [ran] at after

theorem holds {act : ExceptT ε (Action World) α} (ensures : Ensures P act Q fun _ => Q)
    {m : Machine World} (before : P m) : Q (act.run m).2 := by
  rcases ran : act.run m with ⟨fault | value, next⟩
  · exact ensures.failed m fault next before ran
  · exact ensures.completed m value next before ran

theorem bind {act : ExceptT ε (Action World) α} {next : α → ExceptT ε (Action World) β}
    (first : Ensures P act Q E) (rest : ∀ value, Ensures Q (next value) S E) :
    Ensures P (act >>= next) S E := by
  constructor
  · intro m value last before ran
    rw [run_bind] at ran
    rcases middle : act.run m with ⟨fault | result, after⟩ <;> rw [middle] at ran
    · cases ran
    · exact (rest result).completed after value last (first.completed m _ _ before middle) ran
  · intro m fault last before ran
    rw [run_bind] at ran
    rcases middle : act.run m with ⟨early | result, after⟩ <;> rw [middle] at ran
    · cases ran
      exact first.failed m fault _ before middle
    · exact (rest result).failed after fault last (first.completed m _ _ before middle) ran

/-- A computation that cannot fail establishes anything of its failures. -/
theorem lift {act : Action World α} (holds : ∀ m, P m → Q (act m).2) :
    Ensures P (liftM act : ExceptT ε (Action World) α) Q E where
  completed m value next before ran := by
    rw [run_lift] at ran
    cases ran
    exact holds m before
  failed m fault next _ ran := by
    rw [run_lift] at ran
    cases ran

theorem pure {value : α} (holds : ∀ m, P m → Q m) :
    Ensures P (pure value : ExceptT ε (Action World) α) Q E where
  completed m _ next before ran := by
    cases ran
    exact holds m before
  failed m _ next _ ran := by cases ran

theorem set {target : Machine World} (holds : Q target) :
    Ensures P (set target : ExceptT ε (Action World) PUnit) Q E where
  completed m _ next _ ran := by
    cases ran
    exact holds
  failed m _ next _ ran := by cases ran

theorem forM {act : α → ExceptT ε (Action World) PUnit} (values : List α)
    (each : ∀ value ∈ values, Ensures P (act value) P E) : Ensures P (values.forM act) P E := by
  induction values with
  | nil => exact .pure fun _ => id
  | cons value rest inductionHypothesis =>
      exact .bind (each value List.mem_cons_self) fun _ =>
        inductionHypothesis fun other member => each other (List.mem_cons_of_mem value member)

theorem weaken {act : ExceptT ε (Action World) α} (ensures : Ensures P act Q E)
    (stronger : ∀ m, S m → P m) : Ensures S act Q E where
  completed m value next before := ensures.completed m value next (stronger m before)
  failed m fault next before := ensures.failed m fault next (stronger m before)

theorem imp {Q' : Machine World → Prop} {E' : ε → Machine World → Prop}
    {act : ExceptT ε (Action World) α} (ensures : Ensures P act Q E)
    (completes : ∀ m, Q m → Q' m) (fails : ∀ fault m, E fault m → E' fault m) :
    Ensures P act Q' E' where
  completed m value next before ran := completes next (ensures.completed m value next before ran)
  failed m fault next before ran := fails fault next (ensures.failed m fault next before ran)

/-- What is known of the machine at the beginning may be used throughout. -/
theorem given {act : ExceptT ε (Action World) α} (ensures : ∀ m, P m → Ensures P act Q E) :
    Ensures P act Q E where
  completed m value next before := (ensures m before).completed m value next before
  failed m fault next before := (ensures m before).failed m fault next before

/-- What follows knows the machine it starts from. -/
theorem getting {next : Machine World → ExceptT ε (Action World) α}
    (rest : ∀ m, P m → Ensures (fun start => start = m) (next m) Q E) :
    Ensures P (get >>= next) Q E where
  completed m value last before ran := (rest m before).completed m value last rfl ran
  failed m fault last before ran := (rest m before).failed m fault last rfl ran

/-- What follows keeps what is known of the machine. -/
theorem get {next : Machine World → ExceptT ε (Action World) α}
    (rest : ∀ m, P m → Ensures P (next m) Q E) : Ensures P (get >>= next) Q E :=
  .getting fun m holds => (rest m holds).weaken fun _ same => same ▸ holds

theorem throw {fault : ε} (holds : ∀ m, P m → E fault m) :
    Ensures P (throw fault : ExceptT ε (Action World) α) Q E where
  completed m _ next _ ran := by cases ran
  failed m _ next before ran := by
    cases ran
    exact holds m before

end Attempt.Ensures

end Avr

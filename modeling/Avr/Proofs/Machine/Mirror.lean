import Avr.Proofs.Machine.Respect

/-!
Contract: two computations side by side, on two machines.

Owns:
- the statement that from machines in accord both have the same result and leave machines in accord;
- how the statement follows from that of the parts of the computations;
- invariants of one machine as the case in which it stands beside itself.

What is in accord is left open: it is what the computations keep.
-/

namespace Avr

variable {World α β ε : Type} {A : Machine World → Machine World → Prop}

/-! ### Computations that cannot fail -/

/-- From the machines `m` and `n` both computations have the same result, and they leave machines in
accord. -/
structure Action.Agree (A : Machine World → Machine World → Prop) (act act' : Action World α)
    (m n : Machine World) : Prop where
  same : (act m).1 = (act' n).1
  accord : A (act m).2 (act' n).2

namespace Action.Agree

variable {m n : Machine World}

theorem bind {act act' : Action World α} {next next' : α → Action World β}
    (first : Agree A act act' m n)
    (rest : ∀ value m n, A m n → Agree A (next value) (next' value) m n) :
    Agree A (act >>= next) (act' >>= next') m n := by
  obtain ⟨same, after⟩ := first
  have agree := rest (act m).1 _ _ after
  constructor
  · change (next (act m).1 (act m).2).1 = (next' (act' n).1 (act' n).2).1
    rw [agree.same, same]
  · change A (next (act m).1 (act m).2).2 (next' (act' n).1 (act' n).2).2
    rw [← same]
    exact agree.accord

/-- What follows starts from the machines that it depends on. -/
theorem getting {next next' : Machine World → Action World α}
    (agree : Agree A (next m) (next' n) m n) :
    Agree A (get >>= next : Action World α) (get >>= next') m n :=
  ⟨agree.same, agree.accord⟩

end Action.Agree

/-- The computations agree from all machines that are in accord. -/
structure Action.Mirrors (A : Machine World → Machine World → Prop) (act act' : Action World α) :
    Prop where
  agree : ∀ m n, A m n → Action.Agree A act act' m n

namespace Action.Mirrors

theorem pure (value : α) : Mirrors A (pure value : Action World α) (pure value) :=
  ⟨fun _ _ accord => ⟨rfl, accord⟩⟩

theorem bind {act act' : Action World α} {next next' : α → Action World β}
    (first : Mirrors A act act') (rest : ∀ value, Mirrors A (next value) (next' value)) :
    Mirrors A (act >>= next) (act' >>= next') :=
  ⟨fun m n accord => (first.agree m n accord).bind fun value => (rest value).agree⟩

/-- What follows may depend on the machines, as long as they are in accord. -/
theorem getting {next next' : Machine World → Action World α}
    (rest : ∀ m n, A m n → Mirrors A (next m) (next' n)) :
    Mirrors A (get >>= next : Action World α) (get >>= next') :=
  ⟨fun m n accord => .getting ((rest m n accord).agree m n accord)⟩

theorem gettingAt {next next' : Machine World → Action World α}
    (rest : ∀ m n, A m n → Agree A (next m) (next' n) m n) :
    Mirrors A (get >>= next : Action World α) (get >>= next') :=
  ⟨fun m n accord => .getting (rest m n accord)⟩

theorem modify {change change' : Machine World → Machine World}
    (related : ∀ m n, A m n → A (change m) (change' n)) :
    Mirrors A (modify change : Action World Unit) (modify change') :=
  ⟨fun m n accord => ⟨rfl, related m n accord⟩⟩

theorem answer {change change' : Machine World → Machine World × α}
    (same : ∀ m n, A m n → (change m).2 = (change' n).2)
    (related : ∀ m n, A m n → A (change m).1 (change' n).1) :
    Mirrors A (Machine.answer change : Action World α) (Machine.answer change') :=
  ⟨fun m n accord => ⟨same m n accord, related m n accord⟩⟩

theorem forM {act act' : α → Action World PUnit} (each : ∀ value, Mirrors A (act value) (act' value))
    (values : List α) : Mirrors A (values.forM act) (values.forM act') := by
  induction values with
  | nil => exact .pure _
  | cons value rest inductionHypothesis => exact .bind (each value) fun _ => inductionHypothesis

end Action.Mirrors

/-! ### Computations that may fail -/

/-- From the machines `m` and `n` both computations have the same result or fail alike, and they
leave machines in accord. -/
abbrev Attempt.Agree (A : Machine World → Machine World → Prop)
    (act act' : ExceptT ε (Action World) α) (m n : Machine World) : Prop :=
  Action.Agree A act.run act'.run m n

@[inherit_doc Action.Mirrors]
structure Attempt.Mirrors (A : Machine World → Machine World → Prop)
    (act act' : ExceptT ε (Action World) α) : Prop where
  run : Action.Mirrors A act.run act'.run

/-- Both parts of a machine are refused alike, or what replaces them is related. -/
inductive Concur {σ : Type} (related : σ → σ → Prop) : Except ε σ → Except ε σ → Prop where
  | ok {next next' : σ} (holds : related next next') : Concur related (.ok next) (.ok next')
  | error (fault : ε) : Concur related (.error fault) (.error fault)

theorem Concur.map {σ τ : Type} {related : σ → σ → Prop} {related' : τ → τ → Prop}
    {part part' : Except ε σ} {change change' : σ → τ} (concur : Concur related part part')
    (follows : ∀ next next', related next next' → related' (change next) (change' next')) :
    Concur related' (do return change (← part)) (do return change' (← part')) := by
  cases concur with
  | ok holds => exact .ok (follows _ _ holds)
  | error fault => exact .error fault

/-- What replaces the parts is what they resulted in. -/
theorem Concur.known {σ : Type} {related : σ → σ → Prop} {part part' : Except ε σ}
    (concur : Concur related part part') :
    Concur (fun next next' => part = .ok next ∧ part' = .ok next' ∧ related next next') part
      part' := by
  cases concur with
  | ok holds => exact .ok ⟨rfl, rfl, holds⟩
  | error fault => exact .error fault

theorem Concur.mono {σ : Type} {related related' : σ → σ → Prop} {part part' : Except ε σ}
    (concur : Concur related part part')
    (follows : ∀ next next', related next next' → related' next next') :
    Concur related' part part' := by
  cases concur with
  | ok holds => exact .ok (follows _ _ holds)
  | error fault => exact .error fault

/-- Parts that look the same are refused alike, or are replaced by what looks the same. -/
theorem Concur.of_map {σ τ : Type} {look : σ → τ} {part part' : Except ε σ}
    (same : part.map look = part'.map look) :
    Concur (fun next next' => look next = look next') part part' := by
  rcases part with fault | next <;> rcases part' with fault' | next'
  · cases same
    exact .error fault
  · cases same
  · cases same
  · exact .ok (Except.ok.inj same)

namespace Attempt.Agree

variable {m n : Machine World}

theorem bind {act act' : ExceptT ε (Action World) α}
    {next next' : α → ExceptT ε (Action World) β} (first : Agree A act act' m n)
    (rest : ∀ value m n, A m n → Agree A (next value) (next' value) m n) :
    Agree A (act >>= next) (act' >>= next') m n := by
  obtain ⟨same, after⟩ := first
  rcases ran : act.run m with ⟨result, middle⟩
  rcases ran' : act'.run n with ⟨result', middle'⟩
  change (act.run m).1 = (act'.run n).1 at same
  change A (act.run m).2 (act'.run n).2 at after
  rw [ran, ran'] at same after
  dsimp only at same after
  subst same
  have left := run_bind act next m
  have right := run_bind act' next' n
  rw [ran] at left
  rw [ran'] at right
  constructor
  all_goals
    rw [left, right]
    cases result with
    | error fault => first | rfl | exact after
    | ok value =>
        first
        | exact (rest value _ _ after).same
        | exact (rest value _ _ after).accord

theorem getting {next next' : Machine World → ExceptT ε (Action World) α}
    (agree : Agree A (next m) (next' n) m n) :
    Agree A (get >>= next : ExceptT ε (Action World) α) (get >>= next') m n :=
  ⟨agree.same, agree.accord⟩

theorem lift {act act' : Action World α} (agree : Action.Agree A act act' m n) :
    Agree A (liftM act : ExceptT ε (Action World) α) (liftM act') m n :=
  ⟨congrArg Except.ok agree.same, agree.accord⟩

end Attempt.Agree

namespace Attempt.Mirrors

theorem agree {act act' : ExceptT ε (Action World) α} (mirrors : Mirrors A act act')
    (m n : Machine World) (accord : A m n) : Agree A act act' m n :=
  mirrors.run.agree m n accord

theorem lift {act act' : Action World α} (mirrors : Action.Mirrors A act act') :
    Mirrors A (liftM act : ExceptT ε (Action World) α) (liftM act') :=
  ⟨⟨fun m n accord => Agree.lift (mirrors.agree m n accord)⟩⟩

theorem pure (value : α) : Mirrors A (pure value : ExceptT ε (Action World) α) (pure value) :=
  ⟨.pure _⟩

theorem throw (fault : ε) :
    Mirrors A (throw fault : ExceptT ε (Action World) α) (throw fault) :=
  ⟨.pure _⟩

theorem bind {act act' : ExceptT ε (Action World) α}
    {next next' : α → ExceptT ε (Action World) β} (first : Mirrors A act act')
    (rest : ∀ value, Mirrors A (next value) (next' value)) :
    Mirrors A (act >>= next) (act' >>= next') :=
  ⟨⟨fun m n accord => Agree.bind (first.agree m n accord) fun value => (rest value).agree⟩⟩

theorem tryCatch {act act' : ExceptT ε (Action World) α}
    {handle handle' : ε → ExceptT ε (Action World) α} (first : Mirrors A act act')
    (rest : ∀ fault, Mirrors A (handle fault) (handle' fault)) :
    Mirrors A (tryCatch act handle) (tryCatch act' handle') := by
  refine ⟨⟨fun m n accord => ?_⟩⟩
  obtain ⟨same, after⟩ := first.agree m n accord
  rcases ran : act.run m with ⟨result, middle⟩
  rcases ran' : act'.run n with ⟨result', middle'⟩
  rw [ran, ran'] at same after
  obtain rfl : result = result' := same
  have left := run_tryCatch act handle m
  have right := run_tryCatch act' handle' n
  rw [ran] at left
  rw [ran'] at right
  constructor
  all_goals
    rw [left, right]
    cases result with
    | ok value => first | rfl | exact after
    | error fault =>
        first
        | exact ((rest fault).agree _ _ after).same
        | exact ((rest fault).agree _ _ after).accord

theorem getting {next next' : Machine World → ExceptT ε (Action World) α}
    (rest : ∀ m n, A m n → Mirrors A (next m) (next' n)) :
    Mirrors A (get >>= next : ExceptT ε (Action World) α) (get >>= next') :=
  ⟨⟨fun m n accord => Agree.getting ((rest m n accord).agree m n accord)⟩⟩

theorem gettingAt {next next' : Machine World → ExceptT ε (Action World) α}
    (rest : ∀ m n, A m n → Agree A (next m) (next' n) m n) :
    Mirrors A (get >>= next : ExceptT ε (Action World) α) (get >>= next') :=
  ⟨⟨fun m n accord => Agree.getting (rest m n accord)⟩⟩

theorem modify {change change' : Machine World → Machine World}
    (related : ∀ m n, A m n → A (change m) (change' n)) :
    Mirrors A (modify change : ExceptT ε (Action World) Unit) (modify change') :=
  ⟨⟨fun m n accord => ⟨rfl, related m n accord⟩⟩⟩

theorem answer {change change' : Machine World → Machine World × α}
    (same : ∀ m n, A m n → (change m).2 = (change' n).2)
    (related : ∀ m n, A m n → A (change m).1 (change' n).1) :
    Mirrors A (Machine.answer change : ExceptT ε (Action World) α) (Machine.answer change') :=
  ⟨⟨fun m n accord => ⟨congrArg Except.ok (same m n accord), related m n accord⟩⟩⟩

theorem forM {act act' : α → ExceptT ε (Action World) PUnit} (values : List α)
    (each : ∀ value ∈ values, Mirrors A (act value) (act' value)) :
    Mirrors A (values.forM act) (values.forM act') := by
  induction values with
  | nil => exact .pure _
  | cons value rest inductionHypothesis =>
      exact .bind (each value List.mem_cons_self) fun _ =>
        inductionHypothesis fun other member => each other (List.mem_cons_of_mem value member)

theorem attempt {change change' : Machine World → Except Fault (Machine World)}
    (related : ∀ m n, A m n → Concur A (change m) (change' n)) :
    Mirrors A (Machine.attempt change) (Machine.attempt change') := by
  refine ⟨⟨fun m n accord => ?_⟩⟩
  have concur := related m n accord
  have left := run_attempt change m
  have right := run_attempt change' n
  rcases changed : change m with fault | next <;> rcases changed' : change' n with fault' | next'
  all_goals rw [changed, changed'] at concur
  all_goals rw [changed] at left
  all_goals rw [changed'] at right
  · cases concur
    constructor
    · rw [left, right]
    · rw [left, right]
      exact accord
  · cases concur
  · cases concur
  · cases concur with
    | ok holds =>
        constructor
        · rw [left, right]
        · rw [left, right]
          exact holds

end Attempt.Mirrors

/-! ### Invariants of one machine -/

/-- A machine with a property, beside itself. -/
structure Machine.Itself (P : Machine World → Prop) (m n : Machine World) : Prop where
  eq : m = n
  holds : P m

variable {P : Machine World → Prop}

theorem Action.Mirrors.keeps {act : Action World α}
    (mirrors : Action.Mirrors (Machine.Itself P) act act) :
    Action.Respects (Machine.Keeps P) act :=
  ⟨fun m holds => (mirrors.agree m m ⟨rfl, holds⟩).accord.holds⟩

theorem Action.Respects.itself {act : Action World α}
    (respects : Action.Respects (Machine.Keeps P) act) :
    Action.Mirrors (Machine.Itself P) act act := by
  refine ⟨fun m n ⟨same, holds⟩ => ?_⟩
  subst same
  exact ⟨rfl, rfl, respects.related m holds⟩

/-- Every machine is related to the one that the computation leaves, if what a machine is related to
is kept. -/
theorem Action.Respects.of_mirrors {R : Machine World → Machine World → Prop}
    [IsPreorder (Machine World) R] {act : Action World α}
    (mirrors : ∀ start, Action.Mirrors (Machine.Itself (R start)) act act) :
    Action.Respects R act :=
  ⟨fun start => (mirrors start).keeps.related start (refl_of R start)⟩

theorem Attempt.Mirrors.keeps {act : ExceptT ε (Action World) α}
    (mirrors : Attempt.Mirrors (Machine.Itself P) act act) :
    Attempt.Respects (Machine.Keeps P) act :=
  ⟨mirrors.run.keeps⟩

theorem Attempt.Respects.of_mirrors {R : Machine World → Machine World → Prop}
    [IsPreorder (Machine World) R] {act : ExceptT ε (Action World) α}
    (mirrors : ∀ start, Attempt.Mirrors (Machine.Itself (R start)) act act) :
    Attempt.Respects R act :=
  ⟨Action.Respects.of_mirrors fun start => (mirrors start).run⟩

theorem Attempt.Respects.itself {act : ExceptT ε (Action World) α}
    (respects : Attempt.Respects (Machine.Keeps P) act) :
    Attempt.Mirrors (Machine.Itself P) act act :=
  ⟨respects.run.itself⟩

end Avr

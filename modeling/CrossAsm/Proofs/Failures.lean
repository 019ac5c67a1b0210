import CrossAsm.Proofs.Steps

/-! Steps that fail: which errors a question, or a chain of steps that keeps an invariant, can end
in. -/

namespace CrossAsm

variable {ε δ σ α β : Type}

/-- A question whose errors, if there are any, are of a sort. -/
def FailsOnly (sort : ε → Prop) (x : Except ε α) : Prop :=
  ∀ e, x = .error e → sort e

namespace FailsOnly

variable {sort : ε → Prop}

/-- An answer is no error. -/
theorem ok (a : α) : FailsOnly sort (.ok a) :=
  nofun

/-- An error of the sort. -/
theorem error {e : ε} (expected : sort e) : FailsOnly sort (.error e : Except ε α) := by
  -- There is no other error than this one.
  intro other same
  cases same
  exact expected

/-- A chain of questions fails where one of them does. -/
theorem bind {x : Except ε α} {f : α → Except ε β} (first : FailsOnly sort x)
    (rest : ∀ a, x = .ok a → FailsOnly sort (f a)) : FailsOnly sort (x >>= f) := by
  intro e failed
  -- The error is that of the first question, or of the one that its answer leads to.
  cases asked : x with
  | error other =>
    rw [asked] at failed
    cases failed
    exact first e asked
  | ok a =>
    rw [asked] at failed
    exact rest a asked e failed

/-- An answer that is only worked on fails where it was asked for. -/
theorem map {x : Except ε α} (first : FailsOnly sort x) (f : α → β) :
    FailsOnly sort (do return f (← x)) :=
  first.bind fun _ _ => ok _

/-- An error in another wording. -/
theorem mapError {x : Except δ α} {f : δ → ε} (expected : ∀ e, x = .error e → sort (f e)) :
    FailsOnly sort (x.mapError f) := by
  -- The error comes of one of the question, which is put into other words.
  intro e failed
  cases asked : x with
  | error cause =>
    rw [asked] at failed
    cases failed
    exact expected cause asked
  | ok a =>
    rw [asked] at failed
    cases failed

/-- A wider sort allows no fewer errors. -/
theorem mono {wider : ε → Prop} {x : Except ε α} (fails : FailsOnly sort x)
    (wide : ∀ e, sort e → wider e) : FailsOnly wider x :=
  fun e failed => wide e (fails e failed)

end FailsOnly

/-- A chain of steps fails where the first one does, or else where the rest does. -/
theorem bind_eq_error {m : EStateM ε σ α} {k : α → EStateM ε σ β} {s s' : σ} {e : ε} :
    (m >>= k) s = .error e s' ↔
      m s = .error e s' ∨ ∃ a middle, m s = .ok a middle ∧ k a middle = .error e s' := by
  -- By what the first step comes to.
  show EStateM.bind m k s = .error e s' ↔ _
  unfold EStateM.bind
  cases m s <;> simp [and_assoc]

/-- Steps that keep an invariant, whether they succeed or not, and whose errors, if there are any, are
of a sort. -/
def Guarded (inv : σ → Prop) (sort : ε → Prop) (m : EStateM ε σ α) : Prop :=
  ∀ s, inv s → match m s with
    | .ok _ s' => inv s'
    | .error e s' => inv s' ∧ sort e

/-- Steps leave a state, whether they succeed or not. -/
def Leaves (m : EStateM ε σ α) (s s' : σ) : Prop :=
  (∃ a, m s = .ok a s') ∨ ∃ e, m s = .error e s'

/-- An answer leaves the state as it is. -/
theorem leaves_pure {a : α} {s s' : σ} :
    Leaves (pure a : EStateM ε σ α) s s' ↔ s' = s := by
  -- An answer is no failure, and it leaves the state.
  constructor
  · rintro (⟨b, ran⟩ | ⟨e, ran⟩)
    · exact (pure_eq_ok.1 ran).2.symm
    · cases ran
  · rintro rfl
    exact .inl ⟨a, rfl⟩

/-- A chain of steps leaves what the first one leaves when it fails, or else what the rest leaves. -/
theorem leaves_bind {m : EStateM ε σ α} {k : α → EStateM ε σ β} {s s' : σ} :
    Leaves (m >>= k) s s' ↔
      (∃ e, m s = .error e s') ∨ ∃ a middle, m s = .ok a middle ∧ Leaves (k a) middle s' := by
  show (∃ b, EStateM.bind m k s = .ok b s') ∨ (∃ e, EStateM.bind m k s = .error e s') ↔ _
  unfold EStateM.bind
  -- The rest is run only behind a first step that succeeds.
  cases m s with
  | ok a middle => simp [Leaves, and_assoc]
  | error e failed => simp

namespace Guarded

variable {inv : σ → Prop} {sort : ε → Prop}

/-- The invariant holds after steps that succeed. -/
theorem kept {m : EStateM ε σ α} (guarded : Guarded inv sort m) {s s' : σ} {a : α} (holds : inv s)
    (ran : m s = .ok a s') : inv s' := by
  -- The steps succeed, which is one of the two cases that are guarded.
  have after := guarded s holds
  rw [ran] at after
  exact after

/-- The invariant holds after steps that fail, and the error is of the sort. -/
theorem fails {m : EStateM ε σ α} (guarded : Guarded inv sort m) {s s' : σ} {e : ε} (holds : inv s)
    (ran : m s = .error e s') : inv s' ∧ sort e := by
  -- The steps fail, which is the other case.
  have after := guarded s holds
  rw [ran] at after
  exact after

/-- The invariant holds of whatever the steps leave. -/
theorem left {m : EStateM ε σ α} (guarded : Guarded inv sort m) {s s' : σ} (holds : inv s)
    (leaves : Leaves m s s') : inv s' := by
  -- The steps succeed or fail.
  obtain ⟨a, ran⟩ | ⟨e, ran⟩ := leaves
  · exact guarded.kept holds ran
  · exact (guarded.fails holds ran).1

/-- A wider sort allows no fewer errors. -/
theorem mono {wider : ε → Prop} {m : EStateM ε σ α} (guarded : Guarded inv sort m)
    (wide : ∀ e, sort e → wider e) : Guarded inv wider m := by
  -- Only what is said of errors gets weaker.
  intro s holds
  cases ran : m s with
  | ok a s' => exact guarded.kept holds ran
  | error e s' => exact (guarded.fails holds ran).imp_right (wide e)

/-- An answer leaves the state alone. -/
theorem pure (a : α) : Guarded inv sort (Pure.pure a : EStateM ε σ α) :=
  fun _ holds => holds

/-- An error of the sort. -/
theorem throw {e : ε} (expected : sort e) :
    Guarded inv sort (MonadExcept.throw e : EStateM ε σ α) :=
  fun _ holds => ⟨holds, expected⟩

/-- Steps one after another, the second with the invariant that the first one kept and with what the
first one answered. -/
theorem bindAnswer {m : EStateM ε σ α} {k : α → EStateM ε σ β} (first : Guarded inv sort m)
    (rest : ∀ s a s', m s = .ok a s' → Guarded inv sort (k a)) : Guarded inv sort (m >>= k) := by
  intro s holds
  show match EStateM.bind m k s with
    | .ok _ s' => inv s'
    | .error e s' => inv s' ∧ sort e
  unfold EStateM.bind
  -- Where the first steps fail, the second ones are not taken.
  cases ran : m s with
  | error e s' => exact first.fails holds ran
  | ok a s' => exact rest s a s' ran s' (first.kept holds ran)

/-- Steps one after another, whatever the first one answers. -/
theorem bind {m : EStateM ε σ α} {k : α → EStateM ε σ β} (first : Guarded inv sort m)
    (rest : ∀ a, Guarded inv sort (k a)) : Guarded inv sort (m >>= k) :=
  first.bindAnswer fun _ a _ _ => rest a

/-- Looking at the state, which has the invariant. -/
theorem read {f : σ → EStateM ε σ α} (rest : ∀ s, inv s → Guarded inv sort (f s)) :
    Guarded inv sort (get >>= f) :=
  fun s holds => rest s holds s holds

/-- A change that keeps the invariant. -/
theorem modify {f : σ → σ} (keeps : ∀ s, inv s → inv (f s)) :
    Guarded inv sort (modify f : EStateM ε σ PUnit) :=
  fun s holds => keeps s holds

end Guarded

end CrossAsm

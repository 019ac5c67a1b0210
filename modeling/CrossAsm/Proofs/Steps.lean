/-! Steps that succeed: what a chain of steps, a question or an error says of the state before and
after. -/

namespace CrossAsm

variable {ε σ α β : Type} {s s' : σ}

/-- A chain that succeeds has a middle. -/
@[simp]
theorem bind_eq_ok {x : EStateM ε σ α} {f : α → EStateM ε σ β} {b : β} :
    (x >>= f) s = .ok b s' ↔ ∃ a mid, x s = .ok a mid ∧ f a mid = .ok b s' := by
  -- If the first step fails, so does the chain.
  show EStateM.bind x f s = _ ↔ _
  unfold EStateM.bind
  cases x s <;> simp [and_assoc]

/-- An answer leaves the state alone. -/
@[simp]
theorem pure_eq_ok {a b : α} :
    (pure a : EStateM ε σ α) s = .ok b s' ↔ a = b ∧ s = s' := by
  -- It is a result in the state that there is.
  show EStateM.Result.ok a s = _ ↔ _
  simp

/-- An error is no success. -/
@[simp]
theorem throw_eq_ok {e : ε} {b : α} : (throw e : EStateM ε σ α) s = .ok b s' ↔ False := by
  -- Results and errors are different.
  show EStateM.Result.error e s = _ ↔ _
  simp

/-- Reading gives the state. -/
@[simp]
theorem get_eq_ok {b : σ} : (get : EStateM ε σ σ) s = .ok b s' ↔ s = b ∧ s = s' := by
  -- The state is the answer, and stays.
  show EStateM.Result.ok s s = _ ↔ _
  simp

/-- A change gives the changed state. -/
@[simp]
theorem modify_eq_ok {f : σ → σ} {b : PUnit} :
    (modify f : EStateM ε σ PUnit) s = .ok b s' ↔ f s = s' := by
  -- The answer is trivial.
  show EStateM.Result.ok PUnit.unit (f s) = _ ↔ _
  simp

/-- A chain of questions that succeeds has a middle. -/
@[simp]
theorem except_bind_eq_ok {x : Except ε α} {f : α → Except ε β} {b : β} :
    (x >>= f) = .ok b ↔ ∃ a, x = .ok a ∧ f a = .ok b := by
  -- If the first question fails, so does the chain.
  show Except.bind x f = _ ↔ _
  unfold Except.bind
  cases x <;> simp

/-- The answer to a question. -/
@[simp]
theorem except_pure_eq_ok {a b : α} : (pure a : Except ε α) = .ok b ↔ a = b := by
  -- An answer is no error.
  show Except.ok a = _ ↔ _
  simp

/-- Another wording of an error changes no answer. -/
@[simp]
theorem mapError_eq_ok {δ : Type} {x : Except ε α} {f : ε → δ} {a : α} :
    x.mapError f = .ok a ↔ x = .ok a := by
  -- An answer stays an answer, and an error an error.
  cases x with
  | ok b =>
    constructor <;> intro same <;> cases same <;> rfl
  | error e =>
    constructor <;> intro same <;> cases same

/-- What holds of the state behind a step from a state, if the step succeeds. -/
def Leads (m : EStateM ε σ α) (s : σ) (post : σ → Prop) : Prop :=
  ∀ ⦃a : α⦄ ⦃s' : σ⦄, m s = .ok a s' → post s'

namespace Leads

variable {post : σ → Prop}

/-- An answer leads to where it is given. -/
theorem done {a : α} (holds : post s) : Leads (pure a : EStateM ε σ α) s post := by
  -- It is given at once, in the state that there is.
  intro b s' ran
  exact (pure_eq_ok.1 ran).2 ▸ holds

/-- A failure leads nowhere. -/
theorem fail (e : ε) : Leads (throw e : EStateM ε σ α) s post := by
  -- It comes to no state.
  intro b s' ran
  exact (throw_eq_ok.1 ran).elim

/-- Looking at the state goes nowhere else. -/
theorem read {f : σ → EStateM ε σ α} (rest : Leads (f s) s post) :
    Leads (get >>= f : EStateM ε σ α) s post :=
  rest

/-- A change. -/
theorem modified {f : σ → σ} (holds : post (f s)) :
    Leads (modify f : EStateM ε σ PUnit) s post := by
  -- It is the one step that is taken.
  intro a s' ran
  exact modify_eq_ok.1 ran ▸ holds

/-- A change, and what is done behind it. -/
theorem change {f : σ → σ} {k : PUnit → EStateM ε σ α} (rest : Leads (k ⟨⟩) (f s) post) :
    Leads ((modify f : EStateM ε σ PUnit) >>= k) s post :=
  rest

/-- One step after another. -/
theorem andThen {m : EStateM ε σ β} {k : β → EStateM ε σ α} {mid : σ → Prop}
    (first : Leads m s mid) (rest : ∀ b s', mid s' → Leads (k b) s' post) :
    Leads (m >>= k) s post := by
  -- The chain has a middle, in which what the first one leads to holds.
  intro a s' ran
  obtain ⟨b, middle, ranFirst, ranRest⟩ := bind_eq_ok.1 ran
  exact rest b middle (first ranFirst) ranRest

/-- A weaker statement about where a step leads. -/
theorem mono {m : EStateM ε σ α} {weaker : σ → Prop} (leads : Leads m s post)
    (weaken : ∀ s', post s' → weaker s') : Leads m s weaker :=
  fun _ s' ran => weaken s' (leads ran)

end Leads

/-- Whether a step succeeds with an answer and a state that pass a test. -/
def succeedsWith (test : α → σ → Bool) : EStateM.Result ε σ α → Bool
  | .ok a s => test a s
  | .error .. => false

/-- What a step that passes a test gives. -/
theorem exists_of_succeedsWith {test : α → σ → Bool} {result : EStateM.Result ε σ α}
    (passed : succeedsWith test result = true) :
    ∃ a s, result = .ok a s ∧ test a s = true := by
  -- An error passes no test.
  cases result with
  | ok a s => exact ⟨a, s, rfl, passed⟩
  | error => cases passed

end CrossAsm

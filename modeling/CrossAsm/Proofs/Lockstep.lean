import CrossAsm.Proofs.Steps

/-! Two runs side by side: steps that succeed wherever others do, with the same answers and in
related states. -/

namespace CrossAsm

variable {ε δ σ τ α β : Type}

/-- Two steps in lockstep from two states: where the first succeeds, so does the second, with the
same answer and in a related state. -/
def Lockstep (related : σ → τ → Prop) (x : EStateM ε σ α) (y : EStateM δ τ α) (s : σ) (t : τ) :
    Prop :=
  ∀ ⦃a s'⦄, x s = .ok a s' → ∃ t', y t = .ok a t' ∧ related s' t'

namespace Lockstep

variable {related middle : σ → τ → Prop} {s : σ} {t : τ} {x : EStateM ε σ α} {y : EStateM δ τ α}

/-- An answer leaves related states related. -/
theorem done {a : α} (holds : related s t) :
    Lockstep related (pure a : EStateM ε σ α) (pure a : EStateM δ τ α) s t := by
  -- The answer is given at once, in the state that there is.
  intro b s' ran
  obtain ⟨rfl, rfl⟩ := pure_eq_ok.1 ran
  exact ⟨t, rfl, holds⟩

/-- A failure is followed by anything. -/
theorem fail (e : ε) : Lockstep related (throw e : EStateM ε σ α) y s t := by
  -- It comes to no result that would have to be followed.
  intro b s' ran
  exact (throw_eq_ok.1 ran).elim

/-- Looking at the states. -/
theorem read {f : σ → EStateM ε σ α} {g : τ → EStateM δ τ α}
    (rest : Lockstep related (f s) (g t) s t) :
    Lockstep related (get >>= f : EStateM ε σ α) (get >>= g : EStateM δ τ α) s t :=
  rest

/-- A change of both states. -/
theorem changed {f : σ → σ} {g : τ → τ} (holds : related (f s) (g t)) :
    Lockstep related (modify f : EStateM ε σ PUnit) (modify g : EStateM δ τ PUnit) s t := by
  -- Either change is the one step that is taken.
  intro a s' ran
  obtain rfl := modify_eq_ok.1 ran
  exact ⟨g t, rfl, holds⟩

/-- A change of both states, and what is done behind it. -/
theorem change {f : σ → σ} {g : τ → τ} {k : PUnit → EStateM ε σ α} {l : PUnit → EStateM δ τ α}
    (rest : Lockstep related (k ⟨⟩) (l ⟨⟩) (f s) (g t)) :
    Lockstep related ((modify f : EStateM ε σ PUnit) >>= k) ((modify g : EStateM δ τ PUnit) >>= l)
      s t :=
  rest

/-- One step after another. -/
theorem andThen {k : α → EStateM ε σ β} {l : α → EStateM δ τ β} (first : Lockstep middle x y s t)
    (rest : ∀ a s' t', middle s' t' → Lockstep related (k a) (l a) s' t') :
    Lockstep related (x >>= k) (y >>= l) s t := by
  intro b s' ran
  obtain ⟨a, between, ranFirst, ranRest⟩ := bind_eq_ok.1 ran
  -- The second run stands in the middle as well, with the same answer.
  obtain ⟨between', ranFirst', joined⟩ := first ranFirst
  obtain ⟨t', ranRest', holds⟩ := rest a between between' joined ranRest
  exact ⟨t', bind_eq_ok.2 ⟨a, between', ranFirst', ranRest'⟩, holds⟩

/-- A weaker relation. -/
theorem mono (lockstep : Lockstep middle x y s t) (weaken : ∀ s' t', middle s' t' → related s' t') :
    Lockstep related x y s t := by
  -- The same run follows.
  intro a s' ran
  obtain ⟨t', ran', holds⟩ := lockstep ran
  exact ⟨t', ran', weaken s' t' holds⟩

end Lockstep

/-- Two steps that go in lockstep from any two related states. -/
def InStep (related : σ → τ → Prop) (x : EStateM ε σ α) (y : EStateM δ τ α) : Prop :=
  ∀ ⦃s t⦄, related s t → Lockstep related x y s t

namespace InStep

variable {related : σ → τ → Prop} {x : EStateM ε σ α} {y : EStateM δ τ α}

/-- The same answer. -/
theorem pure (a : α) :
    InStep related (Pure.pure a : EStateM ε σ α) (Pure.pure a : EStateM δ τ α) :=
  fun _ _ holds => .done holds

/-- A failure. -/
theorem throw (e : ε) : InStep related (MonadExcept.throw e : EStateM ε σ α) y :=
  fun _ _ _ => .fail e

/-- One step after another. -/
theorem bind {k : α → EStateM ε σ β} {l : α → EStateM δ τ β} (first : InStep related x y)
    (rest : ∀ a, InStep related (k a) (l a)) : InStep related (x >>= k) (y >>= l) :=
  fun _ _ holds => (first holds).andThen fun a _ _ holds' => rest a holds'

/-- A step goes in lockstep with itself. -/
theorem refl (x : EStateM ε σ α) : InStep Eq x x := by
  -- Equal states go to equal states.
  rintro s _ rfl a s' ran
  exact ⟨s', ran, rfl⟩

/-- The same step first. -/
theorem after (x : EStateM ε σ α) {k l : α → EStateM ε σ β} (rest : ∀ a, InStep Eq (k a) (l a)) :
    InStep Eq (x >>= k) (x >>= l) :=
  (refl x).bind rest

end InStep

end CrossAsm

import CrossAsm.Proofs.Binding.Questions
import CrossAsm.Proofs.Failures

/-! How binding fails: every error of it is about what a name refers to, or about an expression that
should have been a constant. -/

namespace CrossAsm

/-- Answers whose errors are of a sort, if those that are found at a definition are. -/
theorem coherent_failsOnly {sort : Error → Prop} (found : ∀ e, e.Found → sort e) :
    Coherent fun _ x _ => FailsOnly sort x := by
  -- The errors of a chain are those of its steps.
  refine ⟨fun a => .ok a, fun {_ e} here => .error (found e here), fun first rest => ?_⟩
  exact first.bind fun a _ => rest a

/-- An error about what is referred to, or about an expression that is no constant. -/
def Error.OfBinding (e : Error) : Prop :=
  e.kind = .reference ∨ ∃ pos expr, e = .notAConstant pos expr

/-- An error about what is referred to. -/
theorem Error.OfBinding.reference {e : Error} (kind : e.kind = .reference) : e.OfBinding :=
  .inl kind

/-- An error that is found at a definition is one of them. -/
theorem Error.Found.ofBinding {e : Error} (found : e.Found) : e.OfBinding := by
  -- By cases on the error, one of which has a kind of its own.
  cases found with
  | notAConstant => exact .inr ⟨_, _, rfl⟩
  | eval | notAValue | noSuchMember | unknownType => exact .reference rfl

namespace View

/-- All that is evaluated from a view fails with errors of a sort, if it fails. -/
structure Fails (sort : Error → Prop) (view : View) : Prop where
  /-- What an expression is bound to. -/
  bind : ∀ e, FailsOnly sort (view.bind e)
  /-- The size of a type. -/
  sizeOfType : ∀ type, FailsOnly sort (view.sizeOfType type)
  /-- The size of a variable. -/
  sizeOfVariable : ∀ var, FailsOnly sort (view.sizeOfVariable var)
  /-- The offset of a member. -/
  offsetOf : ∀ type path, FailsOnly sort (view.offsetOf type path)

variable {view : View} {sort : Error → Prop}

/-- All that is evaluated fails as the questions do that it is made of. -/
theorem fails_of_ask (found : ∀ e, e.Found → sort e)
    (answers : ∀ q question, q.weight ≤ question + 2 →
      FailsOnly sort (view.ask (view.fuel question) q)) : view.Fails sort := by
  -- Each evaluation is a question of its own, or is put together from such questions.
  have bound : ∀ e, FailsOnly sort (view.bind e) := fun e =>
    (coherent_failsOnly found).bindWith (n := view.fuel e.weight) (.refl view) fun q inside =>
      answers q e.weight (Nat.le_add_right_of_le (Expr.weight_le_of_mem inside))
  have sized : ∀ type, FailsOnly sort (view.sizeOfType type) := fun type =>
    answers (.typeSize type) type.length (Nat.le_add_left 1 _)
  -- The number of elements is bound as its length is, and else fails by itself.
  have counted : ∀ dim init, FailsOnly sort (view.countWith view.bind dim init) := by
    intro dim init
    cases dim with
    | scalar => exact .ok _
    | unsized =>
      cases init with
      | none => exact .error (found _ .notAConstant)
      | some => exact .ok _
    | sized length =>
      refine (bound length).bind fun e _ => FailsOnly.map ?_ _
      unfold number
      split
      · exact .ok _
      · exact .ok _
      · exact .error (found _ .notAConstant)
  refine ⟨bound, sized, fun var => ?_, fun type path => ?_⟩
  · -- A variable is its type and its elements.
    exact (sized var.type).bind fun _ _ => (counted var.dim var.init).map _
  · have light : (Question.fieldOffset type path).weight ≤ type.length + path.length + 2 := by
      rw [Question.weight]
      omega
    exact answers (.fieldOffset type path) _ light

/-- However many definitions may be followed, a question fails only because of what it refers to. -/
theorem ask_fails (n : Nat) (view : View) (q : Question) :
    FailsOnly Error.OfBinding (view.ask n q) := by
  -- Each definition that is followed leads to questions with one less.
  induction n generalizing view q with
  | zero =>
    rw [ask_zero]
    exact .error (.reference rfl)
  | succ n ih =>
    refine (coherent_failsOnly fun _ found => found.ofBinding).ask_succ (n := n) (.refl view)
      (fun _ q' _ a' _ _ _ => ih a' q') (entersFor_of_same ?_ q)
    rintro α e ⟨key, rfl⟩
    exact .error (.reference rfl)

/-- All that is evaluated fails only because of what it refers to. -/
theorem fails (view : View) : view.Fails Error.OfBinding :=
  fails_of_ask (fun _ found => found.ofBinding) fun q _ _ => ask_fails _ view q

end View

end CrossAsm

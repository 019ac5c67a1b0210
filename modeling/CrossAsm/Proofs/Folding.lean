import CrossAsm.Proofs.Binding.Settled

/-! Folding against evaluation. Folding looks at no address and stops at every symbol, evaluation asks
for all of them; still the two agree on each value and on each failure, and folding comes to a number
exactly where it meets no symbol. -/

namespace CrossAsm.Expr

/-- Whether an expression is made of numbers and operators alone. -/
def Constant : Expr → Prop
  | .number _ => True
  | .name _ | .ref _ | .sizeof _ => False
  | .unary _ e => e.Constant
  | .binary _ l r => l.Constant ∧ r.Constant

variable {address : String → Option Int64} {failure : EvalError}

/-! ### One operator -/

/-- An expression is a number, or has no value of its own. -/
theorem number_or (e : Expr) : (∃ value, e = .number value) ∨ e.number? = none := by
  -- Only the one constructor is a number.
  cases e with
  | number value => exact .inl ⟨value, rfl⟩
  | _ => exact .inr rfl

/-- The two operands of an operator are numbers, or one of them has no value of its own. -/
theorem numbers_or (l r : Expr) :
    (∃ a b, l = .number a ∧ r = .number b) ∨ l.number? = none ∨ r.number? = none := by
  -- First the left operand is looked at, then the right one.
  rcases number_or l with ⟨a, rfl⟩ | symbolic
  · rcases number_or r with ⟨b, rfl⟩ | symbolic
    · exact .inl ⟨a, b, rfl, rfl⟩
    · exact .inr (.inr symbolic)
  · exact .inr (.inl symbolic)

/-- Over numbers an operator is applied, and what it gives is a number. -/
theorem foldBinary_numbers {op : BinaryOp} {a b : Int64} {folded : Expr}
    (done : foldBinary op (.number a) (.number b) = .ok folded) :
    ∃ value, op.apply a b = .ok value ∧ folded = .number value := by
  -- Folding fails with the operator, so that there is a value where it has not failed.
  cases applied : op.apply a b with
  | error _ => simp [foldBinary, applied, Except.map] at done
  | ok value =>
    simp only [foldBinary, applied, Except.map, Except.ok.injEq] at done
    exact ⟨value, rfl, done.symm⟩

/-- Folding an operator over its operand leaves the value. -/
theorem eval_foldUnary (op : UnaryOp) (e : Expr) :
    (foldUnary op e).eval address = (Expr.unary op e).eval address := by
  -- Over a number the operator is applied now instead of later, over anything else it stays.
  rcases number_or e with ⟨value, rfl⟩ | symbolic
  · rfl
  · rw [foldUnary_eq symbolic op]

/-- Folding an operator over its operands leaves the value. -/
theorem eval_foldBinary {op : BinaryOp} {l r folded : Expr}
    (done : foldBinary op l r = .ok folded) :
    folded.eval address = (Expr.binary op l r).eval address := by
  -- An operator is applied to two numbers, and otherwise put back as it is.
  rcases numbers_or l r with ⟨a, b, rfl, rfl⟩ | symbolic
  · -- Both ways the operator is applied to the same two numbers.
    obtain ⟨value, applied, rfl⟩ := foldBinary_numbers done
    show Except.ok (some value) = (do return some (← op.apply a b))
    rw [applied]
    rfl
  · rw [foldBinary_eq symbolic op] at done
    cases done
    rfl

/-- An operator fails over folded operands only if it fails over their values. -/
theorem eval_of_foldBinary_error {op : BinaryOp} {l r : Expr}
    (failed : foldBinary op l r = .error failure) :
    (Expr.binary op l r).eval address = .error failure := by
  -- Folding fails only where an operator was applied to numbers.
  rcases numbers_or l r with ⟨a, b, rfl, rfl⟩ | symbolic
  · show (do return some (← op.apply a b)) = _
    cases applied : op.apply a b with
    | ok _ => simp [foldBinary, applied, Except.map] at failed
    | error _ => rfl
  · -- An operator that is not applied does not fail.
    rw [foldBinary_eq symbolic op] at failed
    cases failed

/-- An operator over a folded operand is folded once and for all. -/
theorem fold_foldUnary {op : UnaryOp} {e : Expr} (folded : e.fold = .ok e) :
    (foldUnary op e).fold = .ok (foldUnary op e) := by
  -- Over a number it becomes one; over anything else it stays, and so it does again.
  rcases number_or e with ⟨value, rfl⟩ | symbolic
  · rfl
  · rw [foldUnary_eq symbolic op, fold, folded]
    exact congrArg Except.ok (foldUnary_eq symbolic op)

/-- An operator over folded operands is folded once and for all. -/
theorem fold_foldBinary {op : BinaryOp} {l r folded : Expr} (left : l.fold = .ok l)
    (right : r.fold = .ok r) (done : foldBinary op l r = .ok folded) :
    folded.fold = .ok folded := by
  -- The same two cases as for the value.
  rcases numbers_or l r with ⟨a, b, rfl, rfl⟩ | symbolic
  · -- What comes of it is a number, in which nothing is left to fold.
    obtain ⟨value, -, rfl⟩ := foldBinary_numbers done
    rfl
  · rw [foldBinary_eq symbolic op] at done
    cases done
    rw [fold, left, right]
    exact foldBinary_eq symbolic op

/-- What an operator over an operand is folded to is a number only over a number. -/
theorem number_of_foldUnary {op : UnaryOp} {e : Expr} {value : Int64}
    (done : foldUnary op e = .number value) : ∃ inner, e = .number inner := by
  -- Over anything else the operator stays, and that is no number.
  rcases number_or e with known | symbolic
  · exact known
  · rw [foldUnary_eq symbolic op] at done
    cases done

/-- What an operator over operands is folded to is a number only over numbers. -/
theorem numbers_of_foldBinary {op : BinaryOp} {l r : Expr} {value : Int64}
    (done : foldBinary op l r = .ok (.number value)) : ∃ a b, l = .number a ∧ r = .number b := by
  -- Where an operand is no number, the operator stays.
  rcases numbers_or l r with known | symbolic
  · exact known
  · rw [foldBinary_eq symbolic op] at done
    cases done

/-! ### Whole expressions -/

/-- A folded expression has the value that the expression has. -/
theorem eval_of_fold {e folded : Expr} (done : e.fold = .ok folded) :
    folded.eval address = e.eval address := by
  -- The operands are folded first, so that the operator meets the same values.
  induction e generalizing folded with
  | number | name | ref | sizeof =>
    cases done
    rfl
  | unary op e ih =>
    simp only [fold, except_bind_eq_ok, except_pure_eq_ok] at done
    obtain ⟨inner, known, rfl⟩ := done
    rw [eval_foldUnary, eval, eval, ih known]
  | binary op l r left right =>
    simp only [fold, except_bind_eq_ok] at done
    obtain ⟨l', knownL, r', knownR, done⟩ := done
    rw [eval_foldBinary done, eval, eval, left knownL, right knownR]

/-- Folding a folded expression changes nothing. -/
theorem fold_again {e folded : Expr} (done : e.fold = .ok folded) :
    folded.fold = .ok folded := by
  -- Every operator meets operands in which nothing is left to fold.
  induction e generalizing folded with
  | number | name | ref | sizeof =>
    cases done
    rfl
  | unary op e ih =>
    simp only [fold, except_bind_eq_ok, except_pure_eq_ok] at done
    obtain ⟨inner, known, rfl⟩ := done
    exact fold_foldUnary (ih known)
  | binary op l r left right =>
    simp only [fold, except_bind_eq_ok] at done
    obtain ⟨l', knownL, r', knownR, done⟩ := done
    exact fold_foldBinary (left knownL) (right knownR) done

/-- An expression that cannot be folded has no value, whatever the addresses are. -/
theorem eval_of_fold_error {e : Expr} (failed : e.fold = .error failure) :
    e.eval address = .error failure := by
  -- An operand fails, which it does under any addresses, or else the operator over folded operands.
  induction e generalizing failure with
  | number | name | ref | sizeof => cases failed
  | unary op e ih =>
    cases inner : e.fold with
    | error cause =>
      rw [fold, inner] at failed
      cases failed
      rw [eval, ih inner]
      rfl
    | ok e' =>
      rw [fold, inner] at failed
      cases failed
  | binary op l r left right =>
    rw [eval]
    cases knownL : l.fold with
    | error cause =>
      rw [fold, knownL] at failed
      cases failed
      rw [left knownL]
      rfl
    | ok l' =>
      cases knownR : r.fold with
      | error cause =>
        -- The left operand may have failed before, but there is one failure only.
        rw [right knownR]
        cases l.eval address <;> rfl
      | ok r' =>
        -- Both operands are folded, and it is the operator that fails over them.
        have both : foldBinary op l' r' = .error failure := by
          rw [fold, knownL, knownR] at failed
          exact failed
        have failing : (binary op l' r').eval address = .error failure :=
          eval_of_foldBinary_error both
        rwa [eval, eval_of_fold knownL, eval_of_fold knownR] at failing

/-- What is folded to a number holds no symbol. -/
theorem constant_of_fold {e : Expr} {value : Int64} (done : e.fold = .ok (.number value)) :
    e.Constant := by
  -- A symbol anywhere would keep every operator around it.
  induction e generalizing value with
  | number => trivial
  | name | ref | sizeof => cases done
  | unary op e ih =>
    simp only [fold, except_bind_eq_ok, except_pure_eq_ok] at done
    obtain ⟨inner, known, done⟩ := done
    obtain ⟨inside, rfl⟩ := number_of_foldUnary done
    exact ih known
  | binary op l r left right =>
    simp only [fold, except_bind_eq_ok] at done
    obtain ⟨l', knownL, r', knownR, done⟩ := done
    obtain ⟨a, b, rfl, rfl⟩ := numbers_of_foldBinary done
    exact ⟨left knownL, right knownR⟩

/-- Whatever a constant is folded to is a number. -/
theorem Constant.fold {e folded : Expr} (constant : e.Constant) (done : e.fold = .ok folded) :
    ∃ value, folded = .number value := by
  -- Without symbols every operator meets numbers, and leaves one.
  induction e generalizing folded with
  | number value =>
    cases done
    exact ⟨value, rfl⟩
  | name | ref | sizeof => exact constant.elim
  | unary op e ih =>
    simp only [Expr.fold, except_bind_eq_ok, except_pure_eq_ok] at done
    obtain ⟨inner, known, rfl⟩ := done
    obtain ⟨value, rfl⟩ := ih constant known
    exact ⟨op.apply value, rfl⟩
  | binary op l r left right =>
    simp only [Expr.fold, except_bind_eq_ok] at done
    obtain ⟨l', knownL, r', knownR, done⟩ := done
    obtain ⟨a, rfl⟩ := left constant.1 knownL
    obtain ⟨b, rfl⟩ := right constant.2 knownR
    -- The operator is applied, and has not failed.
    obtain ⟨value, -, rfl⟩ := foldBinary_numbers done
    exact ⟨value, rfl⟩

/-- Folding comes to a number exactly for a constant of that value. -/
theorem fold_eq_number_iff {e : Expr} {value : Int64} :
    e.fold = .ok (.number value) ↔ e.Constant ∧ e.eval address = .ok (some value) := by
  -- Folding keeps the value, and of a constant it leaves a number.
  constructor
  · intro done
    refine ⟨constant_of_fold done, ?_⟩
    rw [← eval_of_fold done]
    rfl
  · rintro ⟨constant, known⟩
    cases done : e.fold with
    | error failure =>
      -- There would be no value at all.
      rw [eval_of_fold_error done] at known
      cases known
    | ok folded =>
      obtain ⟨literal, rfl⟩ := constant.fold done
      have same : (number literal).eval address = e.eval address := eval_of_fold done
      rw [known] at same
      cases same
      rfl

/-- Folding preserves evaluation: a folded expression is folded for good and has the same value, or
lack of one, or failure, under all addresses; an expression that cannot be folded cannot be evaluated
under any; and what is folded to a number is a constant with that value. -/
theorem folding_preserves_evaluation (e : Expr) :
    (∀ folded, e.fold = .ok folded →
      folded.fold = .ok folded ∧ ∀ address, folded.eval address = e.eval address) ∧
    (∀ failure, e.fold = .error failure → ∀ address, ∃ cause, e.eval address = .error cause) ∧
    ∀ value address,
      e.fold = .ok (.number value) ↔ e.Constant ∧ e.eval address = .ok (some value) := by
  -- The three parts are the lemmas on what is done, what fails, and what becomes a number.
  refine ⟨fun folded done => ?_, fun failure failed address => ?_, fun value address => ?_⟩
  · exact ⟨fold_again done, fun address => eval_of_fold done⟩
  · exact ⟨failure, eval_of_fold_error failed⟩
  · exact fold_eq_number_iff

/-- A symbol, and beside it a quotient that does not fit into 64 bits. -/
def besideQuotient : Expr :=
  binary .add (ref "table") (binary .div (number Int64.minValue) (unary .neg (number 1)))

/-- The quotient cannot be folded, and no address of the symbol gives the sum a value. -/
theorem besideQuotient_fails :
    besideQuotient.fold = .error .divisionByZero ∧
      ∀ address, ∃ cause, besideQuotient.eval address = .error cause := by
  -- The theorem carries the failure of folding over to every address.
  have failed : besideQuotient.fold = .error .divisionByZero := rfl
  exact ⟨failed, (folding_preserves_evaluation besideQuotient).2.1 _ failed⟩

end CrossAsm.Expr

import CrossAsm.Proofs.Binding.Agreement

/-! Bound expressions: names are gone and constants are folded, so that binding them once more
changes nothing. -/

namespace CrossAsm

namespace Expr

/-- Whether no name of the source is left in an expression. -/
def Nameless : Expr → Prop
  | .number _ | .ref _ => True
  | .name _ | .sizeof _ => False
  | .unary _ e => e.Nameless
  | .binary _ l r => l.Nameless ∧ r.Nameless

/-- Whether no name is left in an expression and each constant in it is a number. -/
def Settled : Expr → Prop
  | .number _ | .ref _ => True
  | .name _ | .sizeof _ => False
  | .unary _ e => e.Settled ∧ e.number? = none
  | .binary _ l r => l.Settled ∧ r.Settled ∧ (l.number? = none ∨ r.number? = none)

/-- An operator over something settled is settled once it is folded. -/
theorem Settled.foldUnary {e : Expr} (settled : e.Settled) (op : UnaryOp) :
    (Expr.foldUnary op e).Settled := by
  -- A number becomes another number, and all else is wrapped.
  cases e <;> simp_all [Expr.foldUnary, Settled, number?]

/-- An operator over settled operands is settled once it is folded. -/
theorem Settled.foldBinary {op : BinaryOp} {l r e : Expr} (left : l.Settled) (right : r.Settled)
    (folded : Expr.foldBinary op l r = .ok e) : e.Settled := by
  -- Two numbers become one; anything else stays, with at most one number in it.
  unfold Expr.foldBinary at folded
  split at folded
  · rename_i a b
    cases applied : op.apply a b with
    | error => simp [applied, Except.map] at folded
    | ok value =>
      simp only [applied, Except.map, Except.ok.injEq] at folded
      subst folded
      trivial
  · rename_i notBoth
    cases folded
    refine ⟨left, right, ?_⟩
    -- Two numbers would have been folded.
    cases l <;> cases r <;> simp_all [number?]

/-- Folding settles an expression without names. -/
theorem Nameless.fold {e e' : Expr} (nameless : e.Nameless) (folded : e.fold = .ok e') :
    e'.Settled := by
  -- The operands are settled first, and then the operator is applied to them.
  induction e generalizing e' with
  | number | ref =>
    cases folded
    trivial
  | name | sizeof => exact nameless.elim
  | unary op e ih =>
    simp only [Expr.fold, except_bind_eq_ok, except_pure_eq_ok] at folded
    obtain ⟨inner, known, rfl⟩ := folded
    exact (ih nameless known).foldUnary op
  | binary op l r left right =>
    simp only [Expr.fold, except_bind_eq_ok] at folded
    obtain ⟨l', knownL, r', knownR, folded⟩ := folded
    exact (left nameless.1 knownL).foldBinary (right nameless.2 knownR) folded

/-- No name is left in a settled expression. -/
theorem Settled.nameless {e : Expr} (settled : e.Settled) : e.Nameless := by
  -- By induction on the expression, since its parts are settled as well.
  induction e with
  | number | ref => trivial
  | name | sizeof => exact settled.elim
  | unary op e ih => exact ih settled.1
  | binary op l r left right => exact ⟨left settled.1, right settled.2.1⟩

/-- An operator over something that is no number stays as it is. -/
theorem foldUnary_eq {e : Expr} (open_ : e.number? = none) (op : UnaryOp) :
    Expr.foldUnary op e = .unary op e := by
  cases e <;> first | rfl | cases open_

/-- An operator over operands that are not both numbers stays as it is. -/
theorem foldBinary_eq {l r : Expr} (open_ : l.number? = none ∨ r.number? = none)
    (op : BinaryOp) : Expr.foldBinary op l r = .ok (.binary op l r) := by
  cases l <;> cases r <;> simp_all [Expr.foldBinary, number?]

/-- Folding leaves a settled expression alone. -/
theorem Settled.fold {e : Expr} (settled : e.Settled) : e.fold = .ok e := by
  -- No operator in it has constants to be applied to.
  induction e with
  | number | ref => rfl
  | name | sizeof => exact settled.elim
  | unary op e ih =>
    simp only [Expr.fold, ih settled.1, except_bind_eq_ok, except_pure_eq_ok]
    exact ⟨e, rfl, foldUnary_eq settled.2 op⟩
  | binary op l r left right =>
    simp only [Expr.fold, left settled.1, right settled.2.1, except_bind_eq_ok]
    exact ⟨l, rfl, r, rfl, foldBinary_eq settled.2.2 op⟩

end Expr

namespace View

variable {view : View} {e e' : Expr}

/-- Folding what is settled leaves it alone. -/
theorem fold_settled (view : View) (settled : e.Settled) : view.fold (some e) = .ok (some e) := by
  -- What is settled folds to itself.
  rw [fold, settled.fold]

/-- Folding settles what has no names. -/
theorem fold_nameless {found : Option Expr} (nameless : ∀ e, found = some e → e.Nameless)
    (folded : view.fold found = .ok (some e')) : e'.Settled := by
  -- Only what is there is folded.
  cases found with
  | none => simp [fold] at folded
  | some e =>
    rw [fold] at folded
    split at folded
    · rename_i known
      cases folded
      exact (nameless e rfl).fold known
    · cases folded

/-- What an expression is bound to is settled, if names stand for something without names. -/
theorem bindWith_settled {name : String → Except Error (Option Expr)}
    {sizeof : String → Except Error (Option Nat)}
    (nameless : ∀ {path found}, name path = .ok (some found) → found.Nameless)
    (bound : view.bindWith name sizeof e = .ok (some e')) : e'.Settled := by
  -- Names and sizes are replaced, and each operator is folded over what is settled.
  induction e generalizing e' with
  | number | ref =>
    -- A number is settled, and so is a reference to a symbol.
    cases bound
    trivial
  | name path =>
    simp only [bindWith, except_bind_eq_ok] at bound
    obtain ⟨found, known, folded⟩ := bound
    exact fold_nameless (fun e here => nameless (here ▸ known)) folded
  | sizeof type =>
    -- A size is a number.
    simp only [bindWith, except_bind_eq_ok, except_pure_eq_ok, Option.map_eq_some_iff] at bound
    obtain ⟨_, -, size, -, rfl⟩ := bound
    trivial
  | unary op e ih =>
    simp only [bindWith, except_bind_eq_ok] at bound
    obtain ⟨found, known, folded⟩ := bound
    refine fold_nameless (fun whole here => ?_) folded
    obtain ⟨inner, rfl, rfl⟩ := Option.map_eq_some_iff.1 here
    exact (ih known).nameless
  | binary op l r left right =>
    -- Both operands are known if the whole is.
    simp only [bindWith, except_bind_eq_ok] at bound
    obtain ⟨l', knownL, r', knownR, bound⟩ := bound
    rcases l' with _ | l'
    · simp at bound
    rcases r' with _ | r'
    · simp at bound
    refine fold_nameless (fun whole here => ?_) bound
    cases here
    exact ⟨(left knownL).nameless, (right knownR).nameless⟩

/-- A settled expression is bound to itself. -/
theorem bindWith_of_settled {name : String → Except Error (Option Expr)}
    {sizeof : String → Except Error (Option Nat)} (settled : e.Settled) :
    view.bindWith name sizeof e = .ok (some e) := by
  -- There is no name to be replaced and no constant to be folded.
  induction e with
  | number | ref => rfl
  | name | sizeof => exact settled.elim
  | unary op e ih =>
    simp only [bindWith, ih settled.1, except_bind_eq_ok]
    exact ⟨some e, rfl, view.fold_settled settled⟩
  | binary op l r left right =>
    simp only [bindWith, left settled.1, right settled.2.1, except_bind_eq_ok]
    exact ⟨some l, rfl, some r, rfl, view.fold_settled settled⟩

/-- What a variable stands for has no names, if names stand for something without names. -/
theorem variableAt_nameless {fuel : Nat} {ns : Namespace} {var : Variable}
    (nameless : ∀ {view : View} {path found}, name fuel view path = .ok (some found) →
      found.Nameless)
    (known : view.variableAt fuel ns var = .ok (some e)) : e.Nameless := by
  -- It is known by name, or by the expression of its address, which is bound.
  unfold variableAt at known
  split at known
  · cases known
    trivial
  · rw [except_bind_eq_ok] at known
    obtain ⟨inner, -, bound⟩ := known
    exact (bindWith_settled nameless bound).nameless

/-- What a name stands for has no names. -/
theorem name_nameless {fuel : Nat} {path : String}
    (known : name fuel view path = .ok (some e)) : e.Nameless := by
  -- Each definition that is followed leads to another question about a name.
  induction fuel generalizing view path e with
  -- Nothing is known without fuel.
  | zero => cases known
  | succ fuel ih =>
    rw [name_succ] at known
    split at known
    · rename_i ns symbol _
      -- The whole name leads to a symbol.
      cases symbol with
      | label =>
        -- A label stands for a reference to itself.
        cases known
        trivial
      | var => exact variableAt_nameless ih known
      | function func =>
        -- A function stands for its entry.
        rw [symbolAt] at known
        split at known
        · cases known
        · simp only [Except.ok.injEq, Option.map_eq_some_iff] at known
          obtain ⟨entry, -, rfl⟩ := known
          trivial
      | type => cases known
    -- Else its first part does, and the rest names a member.
    · split at known
      · cases known
      · rename_i head member _
        generalize view.lookup? head = found at known
        rcases found with _ | ⟨ns, var | func | label | (d | d | d)⟩
        · -- The head leads to a variable, a function or an enumeration.
          cases known
        · -- The member is the variable with an offset behind it.
          simp only [memberAt, except_bind_eq_ok] at known
          obtain ⟨base, placed, known⟩ := known
          cases base with
          | none => simp at known
          | some base =>
            simp only [except_bind_eq_ok, except_pure_eq_ok, Option.map_eq_some_iff] at known
            obtain ⟨_, -, offset, -, rfl⟩ := known
            exact ⟨variableAt_nameless ih placed, trivial⟩
        · exact ih known
        · cases known
        · cases known
        · cases known
        · -- A member of an enumeration is a number.
          simp only [memberAt] at known
          split at known
          · cases known
            trivial
          · cases known

/-- What an expression is bound to is settled. -/
theorem bind_settled (bound : view.bind e = .ok (some e')) : e'.Settled :=
  bindWith_settled name_nameless bound

/-- A settled expression is bound to itself. -/
theorem bind_of_settled (settled : e.Settled) : view.bind e = .ok (some e) :=
  bindWith_of_settled settled

/-- A name that leads to a symbol is bound to what the symbol stands for, folded. -/
theorem bind_name_symbol {path : String} {ns : Namespace} {symbol : Symbol}
    (found : view.lookup? path = some (ns, symbol)) (bound : view.bind (.name path) = .ok (some e)) :
    ∃ fuel value, view.symbolAt fuel ns symbol = .ok (some value) ∧
      view.fold (some value) = .ok (some e) := by
  simp only [bind, bindWith, except_bind_eq_ok] at bound
  obtain ⟨value, known, folded⟩ := bound
  -- A definition must be followed, so there is a number of them left.
  cases fuel : view.fuel (Expr.name path).weight with
  | zero => simp [fuel, name] at known
  | succ less =>
    rw [fuel, name_succ, found] at known
    cases value with
    | none => simp [fold] at folded
    | some value => exact ⟨less, value, known, folded⟩

/-- A variable without a fixed address is bound to the address that layout gives it. -/
theorem bind_name_free {path : String} {ns : Namespace} {var : Variable}
    (found : view.lookup? path = some (ns, .var var)) (free : var.address = none)
    (bound : view.bind (.name path) = .ok (some e)) : e = .ref (ns.qualify var.name) := by
  -- The name stands for its own full name, which is left as it is by folding.
  obtain ⟨fuel, value, known, folded⟩ := bind_name_symbol found bound
  simp only [symbolAt, variableAt, free, Except.ok.injEq, Option.some.injEq] at known
  subst known
  rw [view.fold_settled (e := .ref _) trivial, Except.ok.injEq, Option.some.injEq] at folded
  exact folded.symm

/-- A variable with a fixed address is bound to what the address is bound to, at whatever time
and wherever in the namespace of the variable that is done. -/
theorem bind_name_fixed {base : ScopeTable} {limit : Nat} (tidy : base.Tidy)
    (unpinned : base.Unpinned limit) {a b : View} (early : base.Comes limit a.scopes)
    (late : base.Comes limit b.scopes) {path : String} {ns : Namespace} {var : Variable}
    {address : Expr} (found : a.lookup? path = some (ns, .var var))
    (fixed : var.address = some address) (inside : b.ns = ns)
    (bound : a.bind (.name path) = .ok (some e)) (bound' : b.bind address = .ok (some e')) :
    e = e' := by
  -- Binding the name follows the definition of the variable to its address.
  obtain ⟨fuel, value, known, folded⟩ := bind_name_symbol found bound
  simp only [symbolAt, variableAt, fixed, except_bind_eq_ok] at known
  obtain ⟨inner, entered, known⟩ := known
  -- The address is settled where it is bound, so it is not folded again.
  have settled := bindWith_settled name_nameless known
  rw [a.fold_settled settled, Except.ok.injEq, Option.some.injEq] at folded
  subst folded
  -- From there the view is like any other one from the namespace of the variable.
  have similar : Similar base limit inner b := by
    unfold enter at entered
    simp only at entered
    split at entered
    · cases entered
    · cases entered
      exact ⟨inside.symm, early, late⟩
  exact (agreement tidy unpinned fuel).bindWith similar address known bound'

end View

end CrossAsm

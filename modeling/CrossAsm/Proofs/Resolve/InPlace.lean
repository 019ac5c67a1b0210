import CrossAsm.Proofs.Resolve.Visits

/-! Declarations are put in place: what stands in a subroutine or in a block is met in its turn, once
what is around it has been lowered. -/

namespace CrossAsm

/-- A statement that declares a variable, itself or in the blocks that it is made of. What an inline
function declares is put in place where the function is called. -/
inductive Stmt.Declares (var : Variable) : Stmt → Prop
  | here : Declares var (.item (.var var))
  | function {func : Function Stmt} {s : Stmt} (subroutine : func.decl.isInline = false)
    (inside : s ∈ func.body) (declares : Declares var s) : Declares var (.function func)
  | conditional {cond : Conditional Stmt} {s : Stmt} (inside : s ∈ cond.governed)
    (declares : Declares var s) : Declares var (.conditional cond)

namespace Lowering

variable {session session' : Session} {code : List Stmt}

/-- The statements of a subroutine are among its code. -/
theorem function_subset {func : Function Stmt} (subroutine : func.decl.isInline = false)
    (ran : function func session = .ok code session') : func.body ⊆ code :=
  (function_emits subroutine ran).1.subset

/-- The statements that a conditional governs are among its code. -/
theorem conditional_subset {cond : Conditional Stmt}
    (ran : conditional cond session = .ok code session') : cond.governed ⊆ code :=
  (conditional_emits ran).2.1.subset

end Lowering

/-- A declaration that is met as it is. -/
def PutInPlace (visited : List (Session × Stmt)) (var : Variable) : Prop :=
  ∃ visit ∈ visited, visit.2 = .item (.var var)

namespace Resolve

variable {stmts flat : List Stmt} {session session' before : Session} {s : Stmt} {var : Variable}
  {count left : Nat}

/-- A statement that is replaced is replaced by statements that are met. -/
theorem visited_of_replaced (ran : roundsFrom count left stmts session = .ok flat session')
    (met : (before, s) ∈ visitsFrom left stmts session) {lower : SessionStep (List Stmt)}
    (replaced : stmt s = do return .replaced (← lower)) :
    ∃ others after, lower before = .ok others after ∧
      ∀ x ∈ others, ∃ later, (later, x) ∈ visitsFrom left stmts session := by
  -- It is not settled, so this is not the last round.
  obtain ⟨out, after, became, ends⟩ := visit_run ran met
  simp only [replaced, bind_eq_ok, pure_eq_ok] at became
  obtain ⟨others, _, lowered, rfl, rfl⟩ := became
  refine ⟨others, _, lowered, fun x inside => ?_⟩
  rcases ends with ⟨none, -⟩ | each
  · -- Every statement that replaces it counts as unresolved.
    have empty : others = [] := List.length_eq_zero_iff.1 none
    rw [empty] at inside
    cases inside
  · exact each x inside

/-- A variable that is declared in a statement that is met is put in place. -/
theorem putInPlace_of_declares (ran : roundsFrom count left stmts session = .ok flat session')
    (met : (before, s) ∈ visitsFrom left stmts session) (declares : s.Declares var) :
    PutInPlace (visitsFrom left stmts session) var := by
  -- What is around the declaration is lowered from the outside in.
  induction declares generalizing before with
  | here => exact ⟨_, met, rfl⟩
  | function subroutine inside _ ih =>
    obtain ⟨others, after, lowered, each⟩ := visited_of_replaced ran met rfl
    obtain ⟨later, there⟩ := each _ (Lowering.function_subset subroutine lowered inside)
    exact ih there
  | conditional inside _ ih =>
    obtain ⟨others, after, lowered, each⟩ := visited_of_replaced ran met rfl
    obtain ⟨later, there⟩ := each _ (Lowering.conditional_subset lowered inside)
    exact ih there

end Resolve

end CrossAsm

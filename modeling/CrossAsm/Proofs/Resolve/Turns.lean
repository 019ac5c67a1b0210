import CrossAsm.Proofs.Resolve.Lasting

/-! What one statement becomes in a round. A statement is dropped, kept, or replaced; only a
subroutine or a conditional that is lowered changes the session, and what is kept would be kept once
more as it is then. -/

namespace CrossAsm

namespace Resolve

variable {session : Session} {view : View}

/-! ### Variables once more -/

/-- Values that are bound, as far as they can be, are bound to themselves. -/
theorem bindEach_again {exprs exprs' : List Expr} {unknown : Nat}
    (ran : bindEach view exprs = .ok (exprs', unknown)) :
    bindEach view exprs' = .ok (exprs', unknown) ∧ exprs'.length = exprs.length := by
  -- Value by value: one that is bound is settled, and one that is not known stays as it is.
  induction exprs generalizing exprs' unknown with
  | nil =>
    cases ran
    exact ⟨rfl, rfl⟩
  | cons e others ih =>
    simp only [bindEach, except_bind_eq_ok] at ran
    obtain ⟨bound, known, ⟨rest, count⟩, ranRest, ran⟩ := ran
    obtain ⟨again, same⟩ := ih ranRest
    cases bound with
    | none =>
      -- The same question has the same answer.
      cases ran
      refine ⟨?_, by simp [same]⟩
      simp only [bindEach, except_bind_eq_ok]
      exact ⟨none, known, _, again, rfl⟩
    | some value =>
      cases ran
      have bound : view.bind value = .ok (some value) :=
        View.bind_of_settled (View.bind_settled known)
      refine ⟨?_, by simp [same]⟩
      simp only [bindEach, except_bind_eq_ok]
      exact ⟨some value, bound, _, again, rfl⟩

/-- A bound initializer is bound to itself, and gives as many elements. -/
theorem boundInit_again {init init' : Option Initializer} {unknown : Nat}
    (ran : boundInit view init = .ok (init', unknown)) :
    boundInit view init' = .ok (init', unknown) ∧
      init'.map Initializer.count = init.map Initializer.count := by
  -- By what the initializer is: missing, values, or a text.
  rcases init with _ | ⟨exprs | text, pos⟩
  · cases ran
    exact ⟨rfl, rfl⟩
  · simp only [boundInit, except_bind_eq_ok] at ran
    obtain ⟨⟨exprs', _⟩, bound, ran⟩ := ran
    cases ran
    obtain ⟨again, same⟩ := bindEach_again bound
    refine ⟨?_, by simp [Initializer.count, same]⟩
    simp only [boundInit, except_bind_eq_ok]
    exact ⟨_, again, rfl⟩
  · cases ran
    exact ⟨rfl, rfl⟩

/-- A bound address is bound to itself. -/
theorem boundAddress_again {address address' : Option Expr} {unknown : Nat}
    (ran : boundAddress view address = .ok (address', unknown)) :
    boundAddress view address' = .ok (address', unknown) := by
  -- By whether there is an address, and whether it is known.
  cases address with
  | none =>
    cases ran
    rfl
  | some e =>
    simp only [boundAddress, except_bind_eq_ok] at ran
    obtain ⟨value, known, ran⟩ := ran
    cases value with
    | none =>
      cases ran
      simp only [boundAddress, except_bind_eq_ok]
      exact ⟨none, known, rfl⟩
    | some value =>
      cases ran
      simp only [boundAddress, except_bind_eq_ok]
      exact ⟨some value, View.bind_of_settled (View.bind_settled known), rfl⟩

/-- The number of elements depends on an initializer only through the number it gives. -/
theorem countWith_congr (bind : Expr → Except Error (Option Expr)) (dim : Dim)
    {init init' : Option Initializer}
    (same : init'.map Initializer.count = init.map Initializer.count) :
    view.countWith bind dim init' = view.countWith bind dim init := by
  -- Only a variable without a size counts its values.
  cases dim with
  | scalar | sized => rfl
  | unsized => cases init <;> cases init' <;> simp_all [View.countWith]

/-- A variable with its parts bound becomes itself, with as much left unresolved. -/
theorem variableOf_again {var : Variable} {out : Outcome}
    (ran : variableOf session var = .ok out) :
    ∃ var', out.stmts = [.item (.var var')] ∧ variableOf session var' = .ok out := by
  -- Each part is bound once more to what it was bound to.
  simp only [variableOf_eq, except_bind_eq_ok, except_pure_eq_ok] at ran
  obtain ⟨size, sized, ⟨address, addressOpen⟩, placed, ⟨init, initOpen⟩, filled, rfl⟩ := ran
  obtain ⟨filledAgain, sameCount⟩ := boundInit_again filled
  refine ⟨_, rfl, ?_⟩
  simp only [variableOf_eq, except_bind_eq_ok, except_pure_eq_ok]
  -- The size is asked for with the same type and the same number of elements.
  refine ⟨size, ?_, _, boundAddress_again placed, _, filledAgain, rfl⟩
  rw [← sized]
  simp only [View.sizeOfVariable, countWith_congr _ _ sameCount]

/-! ### The turn of a statement -/

/-- A flat item that lasts, and the item of the same kind in its place. -/
inductive Refines : Item → Item → Prop
  | label (l : Label) : Refines (.label l) (.label l)
  | fileBegin (name : String) : Refines (.fileBegin name) (.fileBegin name)
  | fileEnd (name : String) : Refines (.fileEnd name) (.fileEnd name)
  | directive (d : Directive) (pos : Pos) : Refines (.directive d pos) (.directive d pos)
  | instruction (line line' : Instruction) : Refines (.instruction line) (.instruction line')
  | var (var var' : Variable) : Refines (.var var) (.var var')

/-- A statement that leaves nothing: a mark of a scope, a type, or an inline function. -/
inductive Passing : Stmt → Prop
  | scopeBegin (pos : Pos) : Passing (.item (.scopeBegin pos))
  | scopeEnd (pos : Pos) : Passing (.item (.scopeEnd pos))
  | typeDecl (d : TypeDecl) : Passing (.item (.typeDecl d))
  | inline {func : Function Stmt} (isInline : func.decl.isInline = true) :
    Passing (.function func)

/-- What a statement becomes, and the session behind it. -/
inductive Turn (session : Session) : Stmt → Outcome → Session → Prop
  | dropped {s : Stmt} (passing : Passing s) : Turn session s ⟨[], 0⟩ session
  | kept {item item' : Item} {unresolved : Nat} (refines : Refines item item')
    (again : stmt (.item item') session = .ok ⟨[.item item'], unresolved⟩ session) :
    Turn session (.item item) ⟨[.item item'], unresolved⟩ session
  | waits {c : Call}
    (again : stmt (.item (.call c)) session = .ok (.waiting (.call c)) session) :
    Turn session (.item (.call c)) (.waiting (.call c)) session
  | called (c : Call) (line : Instruction) :
    Turn session (.item (.call c)) (.waiting (.instruction line)) session
  | returned (r : Return) (line : Instruction) :
    Turn session (.item (.ret r)) (.waiting (.instruction line)) session
  | expanded {c : Call} {owner : Namespace} {func : FunctionSymbol} (args : List (String × Expr))
    (found : session.scopes.lookup? c.name c.ns = some (owner, .function func))
    (isInline : func.decl.isInline = true) (fresh : func.decl.name ∉ c.expansion) :
    Turn session (.item (.call c))
      (.replaced (spliceAll args (c.expansion ++ [func.decl.name]) func.body)) session
  | subroutine {func : Function Stmt} {code : List Stmt} {after : Session}
    (subroutine : func.decl.isInline = false)
    (ran : Lowering.function func session = .ok code after) :
    Turn session (.function func) (.replaced code) after
  | conditional {cond : Conditional Stmt} {code : List Stmt} {after : Session}
    (ran : Lowering.conditional cond session = .ok code after) :
    Turn session (.conditional cond) (.replaced code) after

/-- A call waits, becomes a jump, or is replaced by the statements of an inline function. -/
theorem call_turn {c : Call} {out : Outcome} (ran : call session c = .ok out) :
    Turn session (.item (.call c)) out session := by
  -- A call that waits is asked the same question again.
  have waits : out = .waiting (.call c) → Turn session (.item (.call c)) out session := by
    rintro rfl
    exact .waits (Session.ask_eq_ok.2 ⟨ran, rfl⟩)
  unfold call at ran
  split at ran
  · cases ran
  · rename_i owner func found
    split at ran
    · -- An inline function is expanded, unless it is being expanded already or an argument is unknown.
      rename_i isInline
      unfold expand at ran
      simp only at ran
      split at ran
      · cases ran
      · rename_i fresh
        split at ran
        · cases ran
        · rw [except_bind_eq_ok] at ran
          obtain ⟨bound, -, ran⟩ := ran
          cases bound with
          | none => exact waits (except_pure_eq_ok.1 ran).symm
          | some args =>
            rw [except_pure_eq_ok] at ran
            subst ran
            exact .expanded _ found isInline (by simpa using fresh)
    · split at ran
      · cases ran
      · -- The jump waits for its turn, and the call for the entry.
        split at ran
        · cases ran
          exact .called c _
        · cases ran
          exact waits rfl
  · cases ran

/-- An instruction waits, or is settled with a mode. -/
theorem instruction_turn {line : Instruction} {out : Outcome}
    (ran : instruction session line = .ok out) :
    Turn session (.item (.instruction line)) out session := by
  -- The instruction is left or settled, and either is left by the next turn.
  rcases instruction_outcome ran with rfl | ⟨resolved, rfl⟩
  · exact .kept (.instruction _ _) (Session.ask_eq_ok.2 ⟨ran, rfl⟩)
  · -- What is settled is settled as it is.
    exact .kept (.instruction _ _) (Session.ask_eq_ok.2 ⟨instruction_again ran rfl, rfl⟩)

/-- What a statement becomes is one of the turns. -/
theorem stmt_turn {s : Stmt} {out : Outcome} {after : Session}
    (ran : stmt s session = .ok out after) : Turn session s out after := by
  -- A flat item is asked about, or passes; the rest is lowered.
  cases s with
  | function func =>
    simp only [stmt, bind_eq_ok, pure_eq_ok] at ran
    obtain ⟨code, _, lowered, rfl, rfl⟩ := ran
    cases isInline : func.decl.isInline with
    | false => exact .subroutine isInline lowered
    | true =>
      -- Its statements are in the session already, for the calls.
      simp only [Lowering.function, isInline, if_true, pure_eq_ok] at lowered
      obtain ⟨rfl, rfl⟩ := lowered
      exact .dropped (.inline isInline)
  | conditional cond =>
    simp only [stmt, bind_eq_ok, pure_eq_ok] at ran
    obtain ⟨code, _, lowered, rfl, rfl⟩ := ran
    exact .conditional lowered
  | item item =>
    cases item with
    | scopeBegin pos =>
      cases ran
      exact .dropped (.scopeBegin pos)
    | scopeEnd pos =>
      cases ran
      exact .dropped (.scopeEnd pos)
    | typeDecl d =>
      cases ran
      exact .dropped (.typeDecl d)
    | label l =>
      cases ran
      exact .kept (.label l) rfl
    | fileBegin name =>
      cases ran
      exact .kept (.fileBegin name) rfl
    | fileEnd name =>
      cases ran
      exact .kept (.fileEnd name) rfl
    | directive d pos =>
      cases ran
      exact .kept (.directive d pos) rfl
    | ret r =>
      cases ran
      exact .returned r _
    | call c =>
      obtain ⟨asked, rfl⟩ := Session.ask_eq_ok.1 ran
      exact call_turn asked
    | instruction line =>
      obtain ⟨asked, rfl⟩ := Session.ask_eq_ok.1 ran
      exact instruction_turn asked
    | var var =>
      obtain ⟨asked, rfl⟩ := Session.ask_eq_ok.1 ran
      obtain ⟨var', became, again⟩ := variableOf_again asked
      obtain ⟨stmts, unresolved⟩ := out
      obtain rfl : stmts = [.item (.var var')] := became
      exact .kept (.var var var') (Session.ask_eq_ok.2 ⟨again, rfl⟩)
    | functionDecl | clause | initializer => cases ran

end Resolve

end CrossAsm

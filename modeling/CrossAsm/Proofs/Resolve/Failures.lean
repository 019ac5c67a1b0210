import CrossAsm.Proofs.Binding.Failures
import CrossAsm.Proofs.Nesting.Spliceable
import CrossAsm.Proofs.Resolve.Turns

/-! How a round can fail, and what it leaves either way. That there is no progress, or that there are
too many rounds, is found by the loop around the rounds and never in a round itself. Whether it fails
or not, a round changes the session by minting labels and by making entries known, so that it defines
no inline function. -/

namespace CrossAsm

/-- Whether an error tells that rounds were given up. -/
def Error.givesUp : Error → Bool
  | .noProgress .. | .tooManyRounds .. => true
  | _ => false

/-- An error that a round itself can end in. -/
def Error.OfRound (e : Error) : Prop :=
  e.givesUp = false

/-- An error that a question about a flat item can end in, which is not one of structure either. -/
def Error.OfItem (e : Error) : Prop :=
  e.OfRound ∧ e.kind ≠ .structural

/-- An error of binding is one that a question can end in. -/
theorem Error.OfBinding.ofItem {e : Error} (ofBinding : e.OfBinding) : e.OfItem := by
  -- Giving up is an error of convergence.
  rcases ofBinding with reference | ⟨pos, expr, rfl⟩
  · refine ⟨?_, by rw [reference]; nofun⟩
    cases e <;> first | rfl | cases reference
  · exact ⟨rfl, nofun⟩

namespace Session

/-- A session with no other inline functions than another one. -/
def InlinesFrom (session later : Session) : Prop :=
  ∀ func, later.scopes.HoldsInline func →
    ∃ old, session.scopes.HoldsInline old ∧ old.decl = func.decl ∧ old.body = func.body

variable {session middle later base : Session}

/-- The same session has the same inline functions. -/
theorem InlinesFrom.refl (session : Session) : session.InlinesFrom session :=
  fun func holds => ⟨func, holds, rfl, rfl⟩

/-- No other inline functions, step after step. -/
theorem InlinesFrom.trans (early : session.InlinesFrom middle) (late : middle.InlinesFrom later) :
    session.InlinesFrom later := by
  -- An inline function of the last session was in the one between, and so in the first.
  intro func holds
  obtain ⟨between, holds, decl, body⟩ := late func holds
  obtain ⟨old, holds, decl', body'⟩ := early between holds
  exact ⟨old, holds, decl'.trans decl, body'.trans body⟩

/-- A definition adds no inline function, if it is none or one that was there. -/
theorem InlinesFrom.define {symbol : Symbol} {ns : Namespace}
    (fits : ∀ func, symbol = .function func → func.decl.isInline = true →
      ∃ old, session.scopes.HoldsInline old ∧ old.decl = func.decl ∧ old.body = func.body) :
    session.InlinesFrom { session with scopes := session.scopes.define symbol ns } := by
  -- An inline function of the new table is the one defined, or was there.
  intro func holds
  obtain same | before := holds.of_define
  · exact fits func same holds.1
  · exact ⟨func, before, rfl, rfl⟩

/-- No subroutine comes into an inline function as long as none is added. -/
theorem InlinesFrom.spliceable (added : session.InlinesFrom later)
    (spliceable : session.scopes.Spliceable) : later.scopes.Spliceable := by
  -- Every inline function has the statements of one that was there.
  intro func holds
  obtain ⟨old, before, -, body⟩ := added func holds
  rw [← body]
  exact spliceable old before

/-- Steps that define no inline function, and whose errors are those that a round can end in. -/
def RoundStep {α : Type} (base : Session) (m : SessionStep α) : Prop :=
  Guarded base.InlinesFrom Error.OfRound m

/-- A question fails as it does, and leaves the session. -/
theorem ask_guarded {α : Type} {inv : Session → Prop} {sort : Error → Prop}
    {question : Session → Except Error α} (fails : ∀ session, FailsOnly sort (question session)) :
    Guarded inv sort (Session.ask question) := by
  -- The question has an answer or an error of its own.
  refine .read fun session _ => ?_
  split
  · exact .pure _
  · rename_i e failed
    exact .throw (fails session e failed)

/-- A property of sessions that the changes made by resolving keep. -/
structure Invariant (inv : Session → Prop) : Prop where
  /-- Minting a label keeps it. -/
  mint : ∀ {session : Session} (pos : Pos), inv session → inv (session.mint pos).2
  /-- Making an entry known keeps it. -/
  enter : ∀ {session after : Session} {name : String}, inv session →
    Lowering.enter name session = .ok () after → inv after

/-- No step of resolving defines an inline function. -/
theorem inlinesFrom_invariant (base : Session) : Invariant base.InlinesFrom := by
  -- A round defines labels, and functions that were there.
  constructor
  · -- A label is no function.
    intro session pos added
    exact added.trans (.define nofun)
  · intro session after name added ran
    obtain rfl | ⟨old, here, rfl⟩ := Lowering.enter_run ran
    · exact added
    · -- The function is the same but for its entry.
      refine added.trans (.define ?_)
      rintro _ ⟨⟩ isInline
      exact ⟨old, ⟨isInline, _, Entries.mem_of_get? here⟩, rfl, rfl⟩

end Session

open Session (RoundStep)

variable {base : Session} {inv : Session → Prop}

/-! ### Lowering -/

namespace Site

variable (site : Site)

/-- Minting a label never fails. -/
theorem newLabel_guarded (kept : Session.Invariant inv) :
    Guarded inv Error.OfRound site.newLabel :=
  fun _ holds => kept.mint site.pos holds

/-- Leaving never fails. -/
theorem leaveUnless_guarded (kept : Session.Invariant inv) (test : Test) (target : String) :
    Guarded inv Error.OfRound (site.leaveUnless test target) := by
  -- A near test mints no label, and a far one mints one.
  unfold leaveUnless
  split
  · exact .pure _
  · exact (site.newLabel_guarded kept).bind fun _ => .pure _

/-- Minting labels for cases never fails. -/
theorem caseLabels_guarded (kept : Session.Invariant inv) (blocks : List (Block Stmt)) :
    Guarded inv Error.OfRound (site.caseLabels blocks) := by
  -- By induction on the blocks, each of which mints at most one label.
  induction blocks with
  | nil => exact .pure _
  | cons block others ih =>
    have rest : ∀ next : Option String, Guarded inv Error.OfRound (do
        return (block, next) :: (← site.caseLabels others)) := fun _ => ih.bind fun _ => .pure _
    unfold caseLabels
    split
    · exact (site.newLabel_guarded kept).bind fun next => rest (some next)
    · exact rest none

/-- A block of a switch may be no case. -/
theorem cases_fails (compare : Op) (done : String) (labelled : List (Block Stmt × Option String)) :
    FailsOnly Error.OfRound (site.cases compare done labelled) := by
  -- By induction on the blocks.
  induction labelled with
  | nil => exact .ok _
  | cons first others ih =>
    obtain ⟨block, next⟩ := first
    have here : FailsOnly Error.OfRound
        (site.caseOf compare done block next others.isEmpty) := by
      unfold caseOf
      split
      · exact .ok _
      · exact .ok _
      · exact .error rfl
    exact here.bind fun _ _ => ih.map _

/-- A switch fails as its cases do. -/
theorem switch_guarded (kept : Session.Invariant inv) (register : Register)
    (blocks : List (Block Stmt)) :
    Guarded inv Error.OfRound (site.switch register blocks) := by
  -- The labels are minted before the cases are looked at.
  refine (site.caseLabels_guarded kept blocks).bind fun labelled =>
    (site.newLabel_guarded kept).bind fun done => ?_
  split
  · exact .pure _
  · rename_i e failed
    exact .throw (site.cases_fails _ _ _ e failed)

end Site

namespace Lowering

/-- A block may have no test. -/
theorem testOf_guarded (pos : Pos) (block : Block Stmt) :
    Guarded inv Error.OfRound (testOf pos block) := by
  -- By the keyword of the block.
  unfold testOf
  split
  · exact .pure _
  · exact .throw rfl

/-- A conditional that is not well formed is a structural error. -/
theorem conditional_guarded (kept : Session.Invariant inv) (cond : Conditional Stmt) :
    Guarded inv Error.OfRound (conditional cond) := by
  -- Form by form: minting never fails, but a test or a block may be missing.
  let site : Site := ⟨cond.ns, cond.pos⟩
  have mint : Guarded inv Error.OfRound site.newLabel := site.newLabel_guarded kept
  cases form : cond.form with
  | ifThen =>
    -- The test is looked for first, and its kind is checked.
    simp only [conditional, form]
    exact (testOf_guarded _ _).bind fun test => mint.bind fun after =>
      (site.leaveUnless_guarded kept _ _).bind fun _ => .pure _
  | ifElse =>
    -- With an `else` there has to be a second block.
    simp only [conditional, form]
    refine (testOf_guarded _ _).bind fun test => ?_
    split
    · exact mint.bind fun _ => mint.bind fun _ => (site.leaveUnless_guarded kept _ _).bind fun _ =>
        .pure _
    · exact .throw rfl
  | whileLoop =>
    simp only [conditional, form]
    exact (testOf_guarded _ _).bind fun test => mint.bind fun _ => mint.bind fun _ =>
      (site.leaveUnless_guarded kept _ _).bind fun _ => .pure _
  | doWhile =>
    -- A loop with its test behind the body needs that test.
    simp only [conditional, form]
    split
    · refine mint.bind fun head => ?_
      rw [Site.repeatIf_eq]
      exact (site.leaveUnless_guarded kept _ _).bind fun _ => .pure _
    · exact .throw rfl
  | forever =>
    simp only [conditional, form]
    exact mint.bind fun _ => .pure _
  | switch | switchDefault =>
    -- A switch needs its register.
    simp only [conditional, form]
    split
    · exact site.switch_guarded kept _ _
    · exact .throw rfl
  | case | default =>
    -- A case on its own is no conditional.
    simp only [conditional, form]
    exact .throw rfl

/-- Making an entry known never fails. -/
theorem enter_succeeds (name : String) : Guarded (fun _ => True) (fun _ => False) (enter name) := by
  -- The name leads to a function or to something else, and neither is an error.
  refine .read fun session _ => ?_
  split
  · exact .modify fun _ _ => trivial
  · exact .pure _

/-- Lowering a function never fails. -/
theorem function_succeeds (func : Function Stmt) :
    Guarded (fun _ => True) (fun _ => False) (function func) := by
  -- An inline function is left, and any other one is entered.
  unfold function
  simp only
  split
  · exact .pure _
  · exact (enter_succeeds _).bind fun _ => .pure _

/-- Lowering a function never fails, and makes its entry known. -/
theorem function_guarded (kept : Session.Invariant inv) (func : Function Stmt) :
    Guarded inv Error.OfRound (function func) := by
  -- As entering does not fail, only what it leaves matters.
  have enters : Guarded inv Error.OfRound (enter func.decl.name) := by
    intro session holds
    cases ran : enter func.decl.name session with
    | error e after => exact ((enter_succeeds _).fails trivial ran).2.elim
    | ok a after => exact kept.enter holds ran
  unfold function
  simp only
  split
  · exact .pure _
  · exact enters.bind fun _ => .pure _

end Lowering

/-! ### Rounds -/

namespace Resolve

/-- Binding an expression fails only as a question can. -/
theorem bind_ofItem (view : View) (e : Expr) : FailsOnly Error.OfItem (view.bind e) :=
  (view.fails.bind e).mono fun _ => Error.OfBinding.ofItem

/-- A call may name no function, or not fit it, or expand into itself. -/
theorem call_fails (session : Session) (c : Call) : FailsOnly Error.OfItem (call session c) := by
  -- Each check has an error of its own, and the arguments are bound last.
  have args : ∀ view pairs, FailsOnly Error.OfItem (bindArgs view pairs) := by
    intro view pairs
    induction pairs with
    | nil => exact .ok _
    | cons first others ih =>
      obtain ⟨param, arg⟩ := first
      refine (bind_ofItem view arg).bind fun bound _ => ?_
      cases bound with
      | none => exact .ok _
      | some value => exact ih.map _
  have expands : ∀ func, FailsOnly Error.OfItem (expand session c func) := by
    intro func
    unfold expand
    simp only
    split
    · exact .error ⟨rfl, nofun⟩
    · split
      · exact .error ⟨rfl, nofun⟩
      · refine (args _ _).bind fun bound _ => ?_
        cases bound <;> exact .ok _
  -- The name may lead to nothing, or to something else than a function.
  unfold call
  split
  · exact .error ⟨rfl, nofun⟩
  · -- An inline function is expanded, and a subroutine needs no arguments and an entry.
    split
    · exact expands _
    · split
      · exact .error ⟨rfl, nofun⟩
      · split <;> exact .ok _
  · exact .error ⟨rfl, nofun⟩

/-- An instruction may have no mode for its operand. -/
theorem instruction_fails (session : Session) (line : Instruction) :
    FailsOnly Error.OfItem (instruction session line) := by
  -- The operand may not be bound, and what it is bound to may have no mode.
  have bound : FailsOnly Error.OfItem (boundOperand session line) := by
    unfold boundOperand
    split
    · exact .ok _
    · exact (bind_ofItem _ _).map _
  rw [instruction_eq]
  refine bound.bind fun operand _ => ?_
  cases operand with
  | none => exact .ok _
  | some operand =>
    simp only
    split
    · exact .ok _
    · exact .error ⟨rfl, nofun⟩

/-- A variable fails only for what it refers to. -/
theorem variableOf_fails (session : Session) (var : Variable) :
    FailsOnly Error.OfItem (variableOf session var) := by
  -- Every part of a variable is made of expressions that are bound one by one.
  have each : ∀ view exprs, FailsOnly Error.OfItem (bindEach view exprs) := by
    intro view exprs
    induction exprs with
    | nil => exact .ok _
    | cons e others ih =>
      refine (bind_ofItem view e).bind fun bound _ => ih.bind fun rest _ => ?_
      cases bound <;> exact .ok _
  have placed : ∀ view address, FailsOnly Error.OfItem (boundAddress view address) := by
    intro view address
    cases address with
    | none => exact .ok _
    | some e =>
      refine (bind_ofItem view e).bind fun bound _ => ?_
      cases bound <;> exact .ok _
  have filled : ∀ view init, FailsOnly Error.OfItem (boundInit view init) := by
    intro view init
    rcases init with _ | ⟨exprs | text, pos⟩
    · exact .ok _
    · exact (each view exprs).map _
    · exact .ok _
  rw [variableOf_eq]
  -- The size comes first, then the address, then the values.
  refine (((View.fails _).sizeOfVariable _).mono fun _ => Error.OfBinding.ofItem).bind
    fun size _ => ?_
  exact (placed _ _).bind fun _ _ => (filled _ _).bind fun _ _ => .ok _

/-- The turn of a statement keeps what minting and entering keep, and fails only as a round can. -/
theorem stmt_guarded (kept : Session.Invariant inv) (s : Stmt) :
    Guarded inv Error.OfRound (stmt s) := by
  -- By cases on the statement, each kind of which fails in its own way.
  unfold stmt
  split
  · exact (Lowering.function_guarded kept _).bind fun _ => .pure _
  · exact (Lowering.conditional_guarded kept _).bind fun _ => .pure _
  · split
    · exact .pure _
    · exact .pure _
    · exact .pure _
    · exact Session.ask_guarded fun session => (call_fails session _).mono fun _ => And.left
    · exact .pure _
    · exact Session.ask_guarded fun session => (instruction_fails session _).mono fun _ => And.left
    · exact Session.ask_guarded fun session => (variableOf_fails session _).mono fun _ => And.left
    all_goals first | exact .pure _ | exact .throw rfl

/-- A round fails only as one of its turns can. -/
theorem round_guarded (kept : Session.Invariant inv) (stmts : List Stmt) :
    Guarded inv Error.OfRound (round stmts) := by
  -- By induction on the statements.
  induction stmts with
  | nil => exact .pure _
  | cons first others ih =>
    exact (stmt_guarded kept first).bind fun _ => ih.bind fun _ => .pure _

/-- The loop around the rounds keeps what a round keeps, however it ends. -/
theorem roundsFrom_guarded (kept : Session.Invariant inv) (count left : Nat) (stmts : List Stmt) :
    Guarded inv (fun _ => True) (roundsFrom count left stmts) := by
  -- By induction on the rounds that are left.
  induction left generalizing count stmts with
  | zero => exact .throw trivial
  | succ left ih =>
    -- What the loop does after a round is to look at its outcome.
    refine .bind ((round_guarded kept stmts).mono fun _ _ => trivial) fun next => ?_
    split
    · exact .pure _
    · split
      · exact .throw trivial
      · exact ih _ _

/-- The turn of a statement defines no inline function. -/
theorem stmt_roundStep (s : Stmt) : RoundStep base (stmt s) :=
  stmt_guarded (Session.inlinesFrom_invariant base) s

/-- A round defines no inline function. -/
theorem round_roundStep (stmts : List Stmt) : RoundStep base (round stmts) :=
  round_guarded (Session.inlinesFrom_invariant base) stmts

end Resolve

/-- Resolving leaves no subroutine in an inline function, however it ends. -/
theorem resolve_spliceable (stmts : List Stmt) :
    Guarded (fun session => session.scopes.Spliceable) (fun _ => True) (resolve stmts) := by
  -- No inline function is added, so that those that are there stay as they are.
  intro session spliceable
  have loop : Guarded session.InlinesFrom (fun _ => True) (resolve stmts) :=
    Resolve.roundsFrom_guarded (Session.inlinesFrom_invariant session) 0 Resolve.maxRounds stmts
  cases ran : resolve stmts session with
  | ok flat after => exact (loop.kept (.refl session) ran).spliceable spliceable
  | error e after =>
    exact ⟨(loop.fails (.refl session) ran).1.spliceable spliceable, trivial⟩

end CrossAsm

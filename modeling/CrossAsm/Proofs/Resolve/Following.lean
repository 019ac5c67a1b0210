import CrossAsm.Proofs.Binding.Matching
import CrossAsm.Proofs.Isa.Superset
import CrossAsm.Proofs.Lockstep
import CrossAsm.Proofs.Resolve.Lasting
import CrossAsm.Proofs.Resolve.Sessions

/-! Resolving in two sessions: where the symbols match and the processor of the second covers that
of the first, what is resolved in the first is resolved to the same in the second. -/

namespace CrossAsm

namespace Session

/-- A session with matching symbols, for a processor that covers that of another session. -/
structure Follows (s t : Session) : Prop where
  /-- Its processor has the instructions of the other. -/
  cpu : t.cpu.Covers s.cpu
  /-- As many labels are minted. -/
  labels : t.labels = s.labels
  /-- The symbols match. -/
  scopes : s.scopes.Matches t.scopes

variable {s t : Session} {α β : Type}

/-- A session follows itself. -/
theorem Follows.refl (s : Session) : s.Follows s :=
  ⟨.refl s.cpu, rfl, .refl s.scopes⟩

/-- Matching symbols may be defined in both. -/
theorem Follows.define (follows : s.Follows t) {x y : Symbol} (fits : x.Matches y)
    (ns : Namespace) :
    Follows { s with scopes := s.scopes.define x ns } { t with scopes := t.scopes.define y ns } :=
  ⟨follows.cpu, follows.labels, follows.scopes.define fits ns⟩

/-- A view of the second session is one of the first onto the other symbols. -/
theorem viewOf_onto (s t : Session) (ns : Namespace) (pos : Pos) :
    Resolve.viewOf t ns pos = (Resolve.viewOf s ns pos).onto t.scopes :=
  rfl

/-- Steps that succeed in every session that follows one in which they do, with the same answer. -/
def Together (m : SessionStep α) : Prop :=
  InStep Follows m m

namespace Together

/-- A question. -/
theorem ask {question : Session → Except Error α}
    (same : ∀ ⦃s t : Session⦄ ⦃a⦄, s.Follows t → question s = .ok a → question t = .ok a) :
    Together (Session.ask question) := by
  -- The session is only looked at.
  intro s t follows a s' ran
  obtain ⟨answer, rfl⟩ := ask_eq_ok.1 ran
  exact ⟨t, ask_eq_ok.2 ⟨same follows answer, rfl⟩, follows⟩

/-- A label of the same name is minted. -/
theorem newLabel (pos : Pos) : Together (Session.newLabel pos) := by
  -- The count is the same, and so is the name.
  intro s t follows a s' ran
  cases ran
  refine ⟨(t.mint pos).2, ?_, follows.cpu, congrArg (· + 1) follows.labels, ?_⟩
  · show EStateM.Result.ok (t.mint pos).1 (t.mint pos).2 = _
    simp only [mint, follows.labels]
  · simp only [mint, follows.labels]
    exact follows.scopes.define (.label _) .global

end Together

end Session

open Session (Together)

/-! ### Lowering -/

namespace Site

variable (site : Site)

/-- Leaving unless a test holds. -/
theorem leaveUnless_together (test : Test) (target : String) :
    Together (site.leaveUnless test target) := by
  -- A near test mints no label, and a far one mints one.
  unfold leaveUnless
  split
  · exact .pure _
  · exact (Together.newLabel site.pos).bind fun _ => .pure _

/-- Going back if a test holds. -/
theorem repeatIf_together (test : Test) (target : String) :
    Together (site.repeatIf test target) := by
  -- A near test mints no label, and a far one mints one.
  unfold repeatIf
  split
  · exact .pure _
  · exact (Together.newLabel site.pos).bind fun _ => .pure _

/-- The labels of cases. -/
theorem caseLabels_together (blocks : List (Block Stmt)) : Together (site.caseLabels blocks) := by
  -- By induction on the blocks.
  induction blocks with
  | nil => exact .pure _
  | cons block others ih =>
    unfold caseLabels
    -- Only a case mints a label.
    split
    · exact (Together.newLabel site.pos).bind fun _ => ih.bind fun _ => .pure _
    · exact (InStep.pure _).bind fun _ => ih.bind fun _ => .pure _

/-- A switch. -/
theorem switch_together (register : Register) (blocks : List (Block Stmt)) :
    Together (site.switch register blocks) := by
  -- The labels are the same, and so the cases are.
  unfold switch
  refine (site.caseLabels_together blocks).bind fun _ => ?_
  refine (Together.newLabel site.pos).bind fun _ => ?_
  split
  · exact .pure _
  · exact .throw _

end Site

namespace Lowering

/-- The test of a block. -/
theorem testOf_together (pos : Pos) (block : Block Stmt) : Together (testOf pos block) := by
  -- By the keyword of the block.
  unfold testOf
  split
  · exact .pure _
  · exact .throw _

/-- A conditional. -/
theorem conditional_together (cond : Conditional Stmt) : Together (conditional cond) := by
  -- Whatever its form, nothing is done but to mint labels.
  have label : ∀ site : Site, Together site.newLabel := fun site => .newLabel site.pos
  unfold conditional
  simp only
  split
  · -- An `if` mints the label behind it, with an `else` two.
    refine (testOf_together _ _).bind fun test => ?_
    exact (label _).bind fun _ => (Site.leaveUnless_together _ _ _).bind fun _ => .pure _
  · refine (testOf_together _ _).bind fun test => ?_
    split
    · exact (label _).bind fun _ => (label _).bind fun _ =>
        (Site.leaveUnless_together _ _ _).bind fun _ => .pure _
    · exact .throw _
  · -- Loops mint labels for their head and their end.
    refine (testOf_together _ _).bind fun test => ?_
    exact (label _).bind fun _ => (label _).bind fun _ =>
      (Site.leaveUnless_together _ _ _).bind fun _ => .pure _
  · split
    · exact (label _).bind fun _ => (Site.repeatIf_together _ _ _).bind fun _ => .pure _
    · exact .throw _
  · exact (label _).bind fun _ => .pure _
  -- A switch mints labels for its cases, and all else fails.
  all_goals first
    | exact .throw _
    | split
      · exact Site.switch_together _ _ _
      · exact .throw _

/-- Making an entry known. -/
theorem enter_together (name : String) : Together (enter name) := by
  -- The name leads to symbols that match, or nowhere, on both sides.
  intro s t follows
  refine .read ?_
  have found := follows.scopes.lookup? name .global
  generalize s.scopes.lookup? name .global = x at found ⊢
  generalize t.scopes.lookup? name .global = y at found ⊢
  cases found with
  | none => exact .done follows
  | @some x y fits =>
    obtain ⟨_, a⟩ := x
    obtain ⟨ns, b⟩ := y
    obtain ⟨rfl, fits⟩ := fits
    cases fits with
    | function fits => exact .changed (follows.define (.function (fits.entered _)) .global)
    | var | label | type => exact .done follows

/-- A function. -/
theorem function_together (func : Function Stmt) : Together (function func) := by
  -- The function is the same on both sides, spliced in or entered.
  unfold function
  simp only
  split
  · exact .pure _
  · exact (enter_together _).bind fun _ => .pure _

end Lowering

/-! ### Resolving -/

/-- Statements of which resolving makes the same: one and the same, or two inline functions, which
leave nothing. -/
inductive Stmt.Matches : Stmt → Stmt → Prop
  | same (stmt : Stmt) : Matches stmt stmt
  | inline {f g : Function Stmt} (first : f.decl.isInline = true)
    (second : g.decl.isInline = true) : Matches (.function f) (.function g)

namespace Resolve

variable {s t : Session} {view : View}

/-- The values of arguments; none while one of them is not known. -/
def boundArgs (view : View) : List Expr → Except Error (Option (List Expr))
  | [] => .ok (some [])
  | arg :: others => do
    match ← view.bind arg with
    | none => return none
    | some value => return (← boundArgs view others).map (value :: ·)

/-- Arguments are bound to parameters value by value. -/
theorem bindArgs_zip (view : View) {params : List String} {args : List Expr}
    (sized : params.length = args.length) :
    bindArgs view (params.zip args) = (boundArgs view args).map (Option.map (params.zip ·)) := by
  -- By induction on the arguments.
  induction args generalizing params with
  | nil =>
    obtain rfl := List.length_eq_zero_iff.1 sized
    rfl
  | cons arg args ih =>
    cases params with
    | nil => cases sized
    | cons param params =>
      rw [List.zip_cons_cons, bindArgs, boundArgs, ih (Nat.succ.inj sized)]
      rcases view.bind arg with e | _ | value
      · rfl
      · rfl
      · rcases boundArgs view args with e | _ | values <;> rfl

/-- There are as many values as arguments. -/
theorem length_boundArgs {args values : List Expr}
    (bound : boundArgs view args = .ok (some values)) :
    values.length = args.length := by
  -- By induction on the arguments, none of which is left open.
  induction args generalizing values with
  | nil =>
    cases bound
    rfl
  | cons arg args ih =>
    rw [boundArgs, except_bind_eq_ok] at bound
    obtain ⟨_ | value, -, bound⟩ := bound
    · cases bound
    · obtain ⟨_ | rest, boundRest, bound⟩ := except_bind_eq_ok.1 bound
      · cases bound
      · cases bound
        rw [List.length_cons, List.length_cons, ih boundRest]

/-- Arguments have the same values. -/
theorem boundArgs_onto {table : ScopeTable} (same : view.scopes.Matches table) (args : List Expr) :
    boundArgs (view.onto table) args = boundArgs view args := by
  -- By induction on the arguments.
  induction args with
  | nil => rfl
  | cons arg args ih => rw [boundArgs, boundArgs, ih, View.bind_onto same]

/-- An inline function is expanded to the same statements. -/
theorem expand_follows (follows : s.Follows t) (c : Call) {f g : FunctionSymbol}
    (fits : f.Matches g) : expand t c g = expand s c f := by
  -- The checks look at the call and at what matching functions share.
  unfold expand
  simp only [fits.name, fits.arity]
  split
  · rfl
  · split
    · rfl
    · rename_i sized
      have sized : f.decl.params.length = c.args.length := Decidable.of_not_not sized
      have sized' : g.decl.params.length = c.args.length := fits.arity.trans sized
      have same : (viewOf s c.ns c.pos).scopes.Matches t.scopes := follows.scopes
      rw [bindArgs_zip _ sized, bindArgs_zip _ sized', Session.viewOf_onto s t,
        boundArgs_onto same]
      -- The same values take the places of the parameters.
      cases bound : boundArgs (viewOf s c.ns c.pos) c.args with
      | error e => rfl
      | ok values =>
        cases values with
        | none => rfl
        | some values =>
          have count : values.length = f.decl.params.length :=
            (length_boundArgs bound).trans sized.symm
          show Except.ok (Outcome.replaced _) = Except.ok (Outcome.replaced _)
          rw [fits.splices values _ count]

/-- A call becomes the same. -/
theorem call_follows (follows : s.Follows t) (c : Call) : call t c = call s c := by
  -- The name leads to symbols that match, or nowhere, on both sides.
  have found := follows.scopes.lookup? c.name c.ns
  unfold call
  generalize s.scopes.lookup? c.name c.ns = x at found ⊢
  generalize t.scopes.lookup? c.name c.ns = y at found ⊢
  cases found with
  | none => rfl
  | @some x y fits =>
    obtain ⟨_, a⟩ := x
    obtain ⟨ns, b⟩ := y
    obtain ⟨rfl, fits⟩ := fits
    cases fits with
    | function fits =>
      simp only [FunctionDecl.isInline, fits.kind, fits.entry, expand_follows follows c fits]
      rfl
    | var | label | type => rfl

/-- An operand is bound to the same. -/
theorem boundOperand_follows (follows : s.Follows t) (line : Instruction) :
    boundOperand t line = boundOperand s line := by
  -- Tables that match bind to the same.
  have same : (viewOf s line.ns line.pos).scopes.Matches t.scopes := follows.scopes
  unfold boundOperand
  rw [Session.viewOf_onto s t]
  simp only [View.bind_onto same]

/-- An instruction that is settled or waits is or does so in the same way. -/
theorem instruction_follows (follows : s.Follows t) {line : Instruction} {out : Outcome}
    (ran : instruction s line = .ok out) : instruction t line = .ok out := by
  -- The operand is bound to the same, and the mode chosen for it is there.
  rw [instruction_eq, except_bind_eq_ok] at ran ⊢
  obtain ⟨bound, known, ran⟩ := ran
  refine ⟨bound, (boundOperand_follows follows line).trans known, ?_⟩
  cases bound with
  | none => exact ran
  | some operand =>
    simp only at ran ⊢
    -- A mode that the first processor can choose is chosen for the second.
    cases selected : s.cpu.select line.op operand.shape (inZeroPage operand) with
    | none =>
      rw [selected] at ran
      cases ran
    | some mode =>
      rw [selected] at ran
      rw [follows.cpu.select selected]
      exact ran

/-- Values are bound to the same. -/
theorem bindEach_onto {table : ScopeTable} (same : view.scopes.Matches table) (exprs : List Expr) :
    bindEach (view.onto table) exprs = bindEach view exprs := by
  -- By induction on the expressions.
  induction exprs with
  | nil => rfl
  | cons e others ih => rw [bindEach, bindEach, ih, View.bind_onto same]

/-- A variable becomes the same. -/
theorem variableOf_follows (follows : s.Follows t) (var : Variable) :
    variableOf t var = variableOf s var := by
  -- The size, the address and the values are bound to the same.
  have same : (viewOf s var.ns var.pos).scopes.Matches t.scopes := follows.scopes
  unfold variableOf
  simp only [Session.viewOf_onto s t, View.sizeOfVariable_onto same, View.bind_onto same,
    bindEach_onto same]

/-- A statement becomes the same. -/
theorem stmt_together (stmt : Stmt) : Together (Resolve.stmt stmt) := by
  -- Functions and conditionals are lowered; for anything else the session is only asked.
  unfold Resolve.stmt
  split
  · exact (Lowering.function_together _).bind fun _ => .pure _
  · exact (Lowering.conditional_together _).bind fun _ => .pure _
  · split
    case h_4 => exact .ask fun s t out follows ran => (call_follows follows _).trans ran
    case h_6 => exact .ask fun s t out follows ran => instruction_follows follows ran
    case h_7 => exact .ask fun s t out follows ran => (variableOf_follows follows _).trans ran
    all_goals first | exact .pure _ | exact .throw _

/-- The statements of a round become the same. -/
theorem round_together (stmts : List Stmt) : Together (round stmts) := by
  -- By induction on the statements.
  induction stmts with
  | nil => exact .pure _
  | cons first others ih =>
    exact (stmt_together first).bind fun _ => ih.bind fun _ => .pure _

/-- The rounds that are left end with the same statements. -/
theorem roundsFrom_together (count left : Nat) (stmts : List Stmt) :
    Together (roundsFrom count left stmts) := by
  -- By induction on the rounds that are left.
  induction left generalizing count stmts with
  | zero => exact .throw _
  | succ left ih =>
    refine (round_together stmts).bind fun next => ?_
    -- What is left and what has changed is the same, so both go on or end.
    split
    · exact .pure _
    · split
      · exact .throw _
      · exact ih (count + 1) next.stmts

end Resolve

/-- Statements that are resolved are resolved to the same. -/
theorem resolve_together (stmts : List Stmt) : Together (resolve stmts) :=
  Resolve.roundsFrom_together 0 Resolve.maxRounds stmts

end CrossAsm

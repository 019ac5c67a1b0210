import CrossAsm.Proofs.Lowering.Code
import CrossAsm.Proofs.Steps

/-! What lowering emits, whatever the form of a conditional and whether or not it is well formed: the
statements of the subroutine or of the blocks, in their order, among labels and instructions of its
own. To the session a conditional does nothing but mint labels. -/

namespace CrossAsm

/-- The statements of the blocks that the form of a conditional has. -/
def Conditional.governed (cond : Conditional Stmt) : List Stmt :=
  match cond.form with
  | .ifElse => cond.first.body ++ (cond.others.take 1).flatMap Block.body
  | .switch | .switchDefault => cond.others.flatMap Block.body
  | _ => cond.first.body

/-- A statement of the kinds that lowering makes. -/
inductive Stmt.Generated : Stmt → Prop
  | label (l : Label) : Generated (.item (.label l))
  | instruction (line : Instruction) : Generated (.item (.instruction line))

/-- Statements woven into code: they stand in it in their order, and all others are generated. -/
inductive Woven : List Stmt → List Stmt → Prop
  | nil : Woven [] []
  | generated {s : Stmt} {governed code : List Stmt} (made : s.Generated)
    (rest : Woven governed code) : Woven governed (s :: code)
  | governed {governed code : List Stmt} (s : Stmt) (rest : Woven governed code) :
    Woven (s :: governed) (s :: code)

namespace Woven

variable {governed governed' code code' : List Stmt}

/-- Statements with nothing between them. -/
theorem self (stmts : List Stmt) : Woven stmts stmts := by
  -- Every statement is governed by itself.
  induction stmts with
  | nil => exact .nil
  | cons s _ ih => exact .governed s ih

/-- A label alone. -/
theorem label (site : Site) (name : String) : Woven [] [site.label name] :=
  .generated (.label _) .nil

/-- A jump alone. -/
theorem jump (site : Site) (target : String) : Woven [] [site.jump target] :=
  .generated (.instruction _) .nil

/-- Code behind code. -/
theorem append (first : Woven governed code) (second : Woven governed' code') :
    Woven (governed ++ governed') (code ++ code') := by
  -- By induction on the first code, statement by statement.
  induction first with
  | nil => exact second
  | generated made _ ih => exact .generated made ih
  | governed s _ ih => exact .governed s ih

/-- What is woven into code stands in it. -/
theorem subset (woven : Woven governed code) : governed ⊆ code := by
  -- By induction on the code.
  induction woven with
  | nil => exact List.Subset.refl _
  | generated _ _ ih => exact fun s inside => List.mem_cons_of_mem _ (ih inside)
  | governed s _ ih => exact List.cons_subset_cons s ih

end Woven

/-- The session after some labels are minted. -/
inductive Session.MintsTo (session : Session) : Session → Prop
  | refl : MintsTo session session
  | mint {middle : Session} (before : MintsTo session middle) (pos : Pos) :
    MintsTo session (middle.mint pos).2

/-- Labels minted after labels. -/
theorem Session.MintsTo.trans {first second third : Session} (early : first.MintsTo second)
    (late : second.MintsTo third) : first.MintsTo third := by
  -- By induction on the labels that are minted later.
  induction late with
  | refl => exact early
  | mint _ pos ih => exact .mint ih pos

namespace Site

variable {site : Site} {session session' : Session} {code : List Stmt}

/-- A new label is one that is minted. -/
theorem newLabel_mintsTo {name : String} (ran : site.newLabel session = .ok name session') :
    session.MintsTo session' := by
  -- Minting is all that it does.
  cases ran
  exact .mint .refl site.pos

/-- Leaving emits branches, and mints the label of a far test. -/
theorem leaveUnless_emits {test : Test} {target : String}
    (ran : site.leaveUnless test target session = .ok code session') :
    session.MintsTo session' ∧ Woven [] code := by
  -- A near test is one branch.
  cases distance : test.distance with
  | near =>
    simp only [leaveUnless, distance, pure_eq_ok] at ran
    obtain ⟨rfl, rfl⟩ := ran
    exact ⟨.refl, .generated (.instruction _) .nil⟩
  | far =>
    -- A far test branches over a jump, to a label of its own.
    simp only [leaveUnless, distance, bind_eq_ok, pure_eq_ok] at ran
    obtain ⟨past, _, minted, rfl, rfl⟩ := ran
    exact ⟨newLabel_mintsTo minted,
      .generated (.instruction _) (.generated (.instruction _) (.generated (.label _) .nil))⟩

/-- Minting labels for cases leaves the cases as they are. -/
theorem caseLabels_emits {blocks : List (Block Stmt)} {labelled : List (Block Stmt × Option String)}
    (ran : site.caseLabels blocks session = .ok labelled session') :
    session.MintsTo session' ∧ labelled.map Prod.fst = blocks := by
  -- A case mints one label, and any other block none.
  induction blocks generalizing labelled session with
  | nil =>
    cases ran
    exact ⟨.refl, rfl⟩
  | cons block others ih =>
    cases kind : block.clause.kind with
    | caseOf value =>
      simp only [caseLabels, kind, bind_eq_ok, pure_eq_ok] at ran
      obtain ⟨name, _, minted, _, _, ⟨rfl, rfl⟩, rest, _, ranRest, rfl, rfl⟩ := ran
      obtain ⟨late, same⟩ := ih ranRest
      exact ⟨(newLabel_mintsTo minted).trans late, by rw [List.map_cons, same]⟩
    | _ =>
      simp only [caseLabels, kind, bind_eq_ok, pure_eq_ok] at ran
      obtain ⟨_, _, ⟨rfl, rfl⟩, rest, _, ranRest, rfl, rfl⟩ := ran
      obtain ⟨late, same⟩ := ih ranRest
      exact ⟨late, by rw [List.map_cons, same]⟩

/-- The code of one case has its statements between a compare and a jump. -/
theorem caseOf_emits {compare : Op} {done : String} {block : Block Stmt} {next : Option String}
    {last : Bool} (ran : site.caseOf compare done block next last = .ok code) :
    Woven block.body code := by
  -- A block is a case with a value, a default, or none of a switch.
  unfold caseOf at ran
  split at ran
  · rename_i value next _
    cases ran
    -- A case is left for the next one if the register has another value.
    have before : Woven [] [site.inst compare (.immediate value),
        site.goto (Flag.z.branch false) next] :=
      .generated (.instruction _) (.generated (.instruction _) .nil)
    simpa using (before.append (.self block.body)).append
      ((Woven.jump site done).append (.label site next))
  · cases ran
    -- The last block needs no jump to the end.
    cases last with
    | true => simpa using Woven.self block.body
    | false => simpa using (Woven.self block.body).append (.jump site done)
  · cases ran

/-- The code of the cases has the statements of all of them. -/
theorem cases_emits {compare : Op} {done : String} {labelled : List (Block Stmt × Option String)}
    (ran : site.cases compare done labelled = .ok code) :
    Woven ((labelled.map Prod.fst).flatMap Block.body) code := by
  -- Case by case, as the code is put together.
  induction labelled generalizing code with
  | nil =>
    cases ran
    exact .nil
  | cons first others ih =>
    obtain ⟨block, next⟩ := first
    simp only [cases, except_bind_eq_ok, except_pure_eq_ok] at ran
    obtain ⟨here, ranHere, rest, ranRest, rfl⟩ := ran
    rw [List.map_cons, List.flatMap_cons]
    exact (caseOf_emits ranHere).append (ih ranRest)

/-- A switch emits its cases and the label behind them. -/
theorem switch_emits {register : Register} {blocks : List (Block Stmt)}
    (ran : site.switch register blocks session = .ok code session') :
    session.MintsTo session' ∧ Woven (blocks.flatMap Block.body) code ∧
      ∃ l, .item (.label l) ∈ code := by
  -- The cases are emitted between the labels that are minted for them and the one behind.
  simp only [switch, bind_eq_ok] at ran
  obtain ⟨labelled, _, labels, done, _, minted, ran⟩ := ran
  obtain ⟨early, same⟩ := caseLabels_emits labels
  cases selected : site.cases register.compare done labelled with
  | error e => simp [selected] at ran
  | ok stmts =>
    simp only [selected, pure_eq_ok] at ran
    obtain ⟨rfl, rfl⟩ := ran
    have woven := (cases_emits selected).append (.label site done)
    rw [same, List.append_nil] at woven
    exact ⟨early.trans (newLabel_mintsTo minted), woven, ⟨done, site.pos⟩, by simp [Site.label]⟩

end Site

namespace Lowering

variable {cond : Conditional Stmt} {session session' : Session} {code : List Stmt}

/-- Asking for the test of a block leaves the session. -/
theorem testOf_session {pos : Pos} {block : Block Stmt} {test : Test}
    (ran : testOf pos block session = .ok test session') : session' = session := by
  -- Only the clause of the block is looked at.
  cases tested : block.clause.test? with
  | none => simp [testOf, tested] at ran
  | some _ =>
    simp only [testOf, tested, pure_eq_ok] at ran
    exact ran.2.symm

/-- A conditional emits the statements it governs among others, with at least one label, and only
mints labels. -/
theorem conditional_emits (ran : conditional cond session = .ok code session') :
    session.MintsTo session' ∧ Woven cond.governed code ∧ ∃ l, .item (.label l) ∈ code := by
  -- In every form labels are minted first, and a label is put down behind or before the body.
  unfold Conditional.governed
  let site : Site := ⟨cond.ns, cond.pos⟩
  cases form : cond.form with
  | ifThen =>
    -- The label behind the body is minted first.
    simp only [conditional, form, Site.ifThen, bind_eq_ok, pure_eq_ok] at ran
    obtain ⟨test, _, tested, after, _, minted, leave, _, left, rfl, rfl⟩ := ran
    obtain rfl := testOf_session tested
    obtain ⟨late, woven⟩ := Site.leaveUnless_emits left
    refine ⟨(Site.newLabel_mintsTo minted).trans late, ?_, ⟨after, cond.pos⟩, by simp [Site.label]⟩
    simpa using (woven.append (.self cond.first.body)).append (.label site after)
  | ifElse =>
    -- The labels of the second body and of the end are minted first, and there must be a second
    -- body.
    simp only [conditional, form, bind_eq_ok] at ran
    obtain ⟨test, middle, tested, ran⟩ := ran
    obtain rfl := testOf_session tested
    cases others : cond.others with
    | nil => simp [others] at ran
    | cons otherwise rest =>
      simp only [others, Site.ifElse, bind_eq_ok, pure_eq_ok] at ran
      obtain ⟨other, _, first, after, _, second, leave, _, left, rfl, rfl⟩ := ran
      obtain ⟨late, woven⟩ := Site.leaveUnless_emits left
      refine ⟨((Site.newLabel_mintsTo first).trans (Site.newLabel_mintsTo second)).trans late, ?_,
        ⟨after, cond.pos⟩, by simp [Site.label]⟩
      -- The first body ends with a jump over the second one.
      have between := (Woven.jump site after).append (.label site other)
      simpa using (((woven.append (.self cond.first.body)).append between).append
        (.self otherwise.body)).append (.label site after)
  | whileLoop =>
    -- The labels of the head and of the exit are minted first.
    simp only [conditional, form, Site.whileLoop, bind_eq_ok, pure_eq_ok] at ran
    obtain ⟨test, _, tested, head, _, first, exit, _, second, leave, _, left, rfl, rfl⟩ := ran
    obtain rfl := testOf_session tested
    obtain ⟨late, woven⟩ := Site.leaveUnless_emits left
    refine ⟨((Site.newLabel_mintsTo first).trans (Site.newLabel_mintsTo second)).trans late, ?_,
      ⟨head, cond.pos⟩, by simp [Site.label]⟩
    have behind := (Woven.jump site head).append (.label site exit)
    simpa using (((Woven.label site head).append woven).append (.self cond.first.body)).append behind
  | doWhile =>
    cases post : cond.post with
    | none => simp [conditional, form, post] at ran
    | some test =>
      -- Going back is leaving on the opposite test.
      simp only [conditional, form, post, Site.doWhile, Site.repeatIf_eq, bind_eq_ok,
        pure_eq_ok] at ran
      obtain ⟨head, _, minted, back, _, left, rfl, rfl⟩ := ran
      obtain ⟨late, woven⟩ := Site.leaveUnless_emits left
      refine ⟨(Site.newLabel_mintsTo minted).trans late, ?_, ⟨head, cond.pos⟩, by simp [Site.label]⟩
      simpa using ((Woven.label site head).append (.self cond.first.body)).append woven
  | forever =>
    -- The head is all that is minted.
    simp only [conditional, form, Site.forever, bind_eq_ok, pure_eq_ok] at ran
    obtain ⟨head, _, minted, rfl, rfl⟩ := ran
    refine ⟨Site.newLabel_mintsTo minted, ?_, ⟨head, cond.pos⟩, by simp [Site.label]⟩
    simpa using ((Woven.label site head).append (.self cond.first.body)).append (.jump site head)
  | switch | switchDefault =>
    -- A switch names a register, or fails.
    cases kind : cond.first.clause.kind with
    | switchOn register =>
      simp only [conditional, form, kind] at ran
      exact Site.switch_emits ran
    | _ => simp [conditional, form, kind] at ran
  -- A case is no conditional on its own.
  | case | default => simp [conditional, form] at ran

/-- A subroutine is its label, its statements and perhaps a return. -/
theorem function_emits {func : Function Stmt} (subroutine : func.decl.isInline = false)
    (ran : function func session = .ok code session') :
    Woven func.body code ∧ ∃ l, .item (.label l) ∈ code := by
  -- Entering the function changes the session, but emits nothing.
  simp only [function, subroutine, Bool.false_eq_true, if_false, bind_eq_ok, pure_eq_ok] at ran
  obtain ⟨-, middle, -, rfl, -⟩ := ran
  let site : Site := ⟨func.ns, func.decl.pos⟩
  have started := (Woven.label site func.decl.name).append (.self func.body)
  refine ⟨?_, ⟨func.decl.name, func.decl.pos⟩, by simp [Site.label]⟩
  -- A function that does not return has nothing behind its statements.
  cases func.decl.noreturn with
  | true => simpa using started
  | false =>
    have ending : Woven [] [site.inst (Cpu.returnOp func.decl.isInterrupt) .none] :=
      .generated (.instruction _) .nil
    simpa using started.append ending

end Lowering

end CrossAsm

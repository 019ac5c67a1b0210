import CrossAsm.Session

/-! Lowering: structured control flow becomes labels and branches, which layout gives addresses. -/

namespace CrossAsm

/-- Where generated statements stand. -/
structure Site where
  /-- The namespace their operands are read in. -/
  ns : Namespace
  /-- The position they are reported at. -/
  pos : Pos

namespace Site

/-- A label of the given name. -/
def label (site : Site) (name : String) : Stmt :=
  .item (.label ⟨name, site.pos⟩)

/-- An instruction whose mode is still open. -/
def inst (site : Site) (op : Op) (operand : Operand Expr) : Stmt :=
  .item (.instruction (.unresolved op operand site.ns site.pos))

/-- A branch or jump to a label. -/
def goto (site : Site) (op : Op) (target : String) : Stmt :=
  site.inst op (.address (.name target))

/-- A jump to a label. -/
def jump (site : Site) (target : String) : Stmt :=
  site.goto .jmp target

/-- Mints a label. -/
def newLabel (site : Site) : SessionStep String :=
  Session.newLabel site.pos

/-- Goes to a label unless a test holds; a far test branches over a jump. -/
def leaveUnless (site : Site) (test : Test) (target : String) : SessionStep (List Stmt) := do
  match test.distance with
  | .near => return [site.goto test.branchIfFails target]
  | .far =>
    let body ← site.newLabel
    return [site.goto test.branchIfHolds body, site.jump target, site.label body]

/-- Goes to a label if a test holds; a far test branches over a jump. -/
def repeatIf (site : Site) (test : Test) (target : String) : SessionStep (List Stmt) := do
  match test.distance with
  | .near => return [site.goto test.branchIfHolds target]
  | .far =>
    let after ← site.newLabel
    return [site.goto test.branchIfFails after, site.jump target, site.label after]

/-- Runs a body if a test holds. -/
def ifThen (site : Site) (test : Test) (body : List Stmt) : SessionStep (List Stmt) := do
  let after ← site.newLabel
  return (← site.leaveUnless test after) ++ body ++ [site.label after]

/-- Runs one of two bodies. -/
def ifElse (site : Site) (test : Test) (body otherwise : List Stmt) : SessionStep (List Stmt) := do
  let otherwiseLabel ← site.newLabel
  let after ← site.newLabel
  return (← site.leaveUnless test otherwiseLabel) ++ body ++
    [site.jump after, site.label otherwiseLabel] ++ otherwise ++ [site.label after]

/-- Runs a body as long as a test holds before it. -/
def whileLoop (site : Site) (test : Test) (body : List Stmt) : SessionStep (List Stmt) := do
  let head ← site.newLabel
  let exit ← site.newLabel
  return site.label head :: (← site.leaveUnless test exit) ++ body ++
    [site.jump head, site.label exit]

/-- Runs a body as long as a test holds after it. -/
def doWhile (site : Site) (test : Test) (body : List Stmt) : SessionStep (List Stmt) := do
  let head ← site.newLabel
  return site.label head :: body ++ (← site.repeatIf test head)

/-- Runs a body again and again. -/
def forever (site : Site) (body : List Stmt) : SessionStep (List Stmt) := do
  let head ← site.newLabel
  return site.label head :: body ++ [site.jump head]

/-- Mints a label for each case of a switch, to which a case that does not match goes on. -/
def caseLabels (site : Site) :
    List (Block Stmt) → SessionStep (List (Block Stmt × Option String))
  | [] => return []
  | block :: others => do
    let next ← match block.clause.kind with
      | .caseOf _ => do pure (some (← site.newLabel))
      | _ => pure none
    return (block, next) :: (← site.caseLabels others)

/-- The compare and branch of one case. A default runs where it is reached, and needs no jump to the
end when it is the last. -/
def caseOf (site : Site) (compare : Op) (done : String) (block : Block Stmt)
    (next : Option String) (last : Bool) : Except Error (List Stmt) :=
  match block.clause.kind, next with
  | .caseOf value, some next =>
    .ok ([site.inst compare (.immediate value), site.goto (Flag.z.branch false) next] ++
      block.body ++ [site.jump done, site.label next])
  | .byDefault, _ => .ok (block.body ++ if last then [] else [site.jump done])
  | _, _ => .error (.malformedCase block.clause.pos block.clause.render)

/-- The compares and branches of the cases of a switch in order. -/
def cases (site : Site) (compare : Op) (done : String) :
    List (Block Stmt × Option String) → Except Error (List Stmt)
  | [] => .ok []
  | (block, next) :: others => do
    let here ← site.caseOf compare done block next others.isEmpty
    return here ++ (← site.cases compare done others)

/-- Runs the body of the first case that a register is equal to. -/
def switch (site : Site) (register : Register) (blocks : List (Block Stmt)) :
    SessionStep (List Stmt) := do
  -- The labels of the cases are minted before that of the end.
  let labelled ← site.caseLabels blocks
  let done ← site.newLabel
  match site.cases register.compare done labelled with
  | .ok stmts => return stmts ++ [site.label done]
  | .error e => throw e

end Site

namespace Lowering

/-- The test of a block, which must have one. -/
def testOf (pos : Pos) (block : Block Stmt) : SessionStep Test :=
  match block.clause.test? with
  | some test => return test
  | none => throw (.unstructured pos block.clause.render)

/-- A conditional as labels, branches and the statements of its blocks. -/
def conditional (cond : Conditional Stmt) : SessionStep (List Stmt) := do
  let site : Site := ⟨cond.ns, cond.pos⟩
  match cond.form with
  | .ifThen => site.ifThen (← testOf cond.pos cond.first) cond.first.body
  | .ifElse =>
    let test ← testOf cond.pos cond.first
    match cond.others with
    | otherwise :: _ => site.ifElse test cond.first.body otherwise.body
    | [] => throw (.unstructured cond.pos cond.render)
  | .whileLoop => site.whileLoop (← testOf cond.pos cond.first) cond.first.body
  | .doWhile =>
    match cond.post with
    | some test => site.doWhile test cond.first.body
    | none => throw (.doWithoutWhile cond.pos)
  | .forever => site.forever cond.first.body
  | .switch | .switchDefault =>
    match cond.first.clause.kind with
    | .switchOn register => site.switch register cond.others
    | _ => throw (.unstructured cond.pos cond.render)
  | .case | .default => throw (.caseOutsideSwitch cond.pos cond.form.name)

/-- Makes the entry of a function known. -/
def enter (name : String) : SessionStep Unit := do
  match (← get).scopes.lookup? name .global with
  | some (_, .function symbol) =>
    Session.define (.function { symbol with entry := some name }) .global
  | _ => return ()

/-- A function as its label, its statements and a return; from then on its name is known as that of
a label. An inline function leaves nothing, for it is spliced in at its calls. -/
def function (func : Function Stmt) : SessionStep (List Stmt) := do
  let decl := func.decl
  if decl.isInline then
    return []
  else
    -- Calls wait until the entry is known, so it is made known first.
    enter decl.name
    let site : Site := ⟨func.ns, decl.pos⟩
    let ending :=
      if decl.noreturn then [] else [site.inst (Cpu.returnOp decl.isInterrupt) .none]
    return site.label decl.name :: func.body ++ ending

end Lowering

end CrossAsm

import CrossAsm.Binding
import CrossAsm.Lowering

/-! Resolving: statements are replaced until all are flat, bound and have a mode or size. -/

namespace CrossAsm

namespace Resolve

/-- The most rounds. -/
def maxRounds : Nat := 256

/-- Whether a statement still has something to be resolved. -/
def isPending : Stmt → Bool
  | .item (.instruction line) => line.mode.isNone
  | .item (.var var) => var.size.isNone
  | .item (.call _) | .item (.ret _) | .function _ | .conditional _ => true
  | .item _ => false

/-- The view of a statement that stands in a namespace. -/
def viewOf (session : Session) (ns : Namespace) (pos : Pos) : View :=
  { scopes := session.scopes, ns, pos }

/-- A variable with arguments in place of names. -/
def spliceVariable (args : List (String × Expr)) (var : Variable) : Variable :=
  { var with
    address := var.address.map (·.substitute args)
    dim := match var.dim with
      | .sized length => .sized (length.substitute args)
      | dim => dim
    init := var.init.map fun init =>
      match init.value with
      | .values exprs => { init with value := .values (exprs.map (·.substitute args)) }
      | .text _ => init }

/-- A clause with arguments in place of names. -/
def spliceClause (args : List (String × Expr)) (clause : Clause) : Clause :=
  match clause.kind with
  | .caseOf value => { clause with kind := .caseOf (value.substitute args) }
  | _ => clause

/-- A flat item with arguments in place of names, and a call marked as part of an expansion. -/
def spliceItem (args : List (String × Expr)) (expansion : List String) : Item → Item
  | .instruction line =>
    .instruction { line with operand := line.operand.map (·.substitute args) }
  | .call call => .call { call with args := call.args.map (·.substitute args), expansion }
  | .var var => .var (spliceVariable args var)
  | item => item

mutual

/-- A statement with arguments in place of names, and its calls marked as part of an expansion. -/
def splice (args : List (String × Expr)) (expansion : List String) : Stmt → Stmt
  | .item item => .item (spliceItem args expansion item)
  | .conditional ⟨form, first, others, depth, post, ns⟩ =>
    .conditional ⟨form, spliceBlock args expansion first, spliceBlocks args expansion others,
      depth, post, ns⟩
  | .function func => .function func

/-- A block with arguments in place of names. -/
def spliceBlock (args : List (String × Expr)) (expansion : List String) :
    Block Stmt → Block Stmt
  | ⟨clause, body, isOpen⟩ => ⟨spliceClause args clause, spliceAll args expansion body, isOpen⟩

/-- Blocks with arguments in place of names. -/
def spliceBlocks (args : List (String × Expr)) (expansion : List String) :
    List (Block Stmt) → List (Block Stmt)
  | [] => []
  | block :: others => spliceBlock args expansion block :: spliceBlocks args expansion others

/-- Statements with arguments in place of names. -/
def spliceAll (args : List (String × Expr)) (expansion : List String) : List Stmt → List Stmt
  | [] => []
  | stmt :: others => splice args expansion stmt :: spliceAll args expansion others

end

/-- What a statement becomes, and how many of its parts are still unresolved. -/
structure Outcome where
  /-- The statements in its place. -/
  stmts : List Stmt
  /-- The number of unresolved parts. -/
  unresolved : Nat

namespace Outcome

/-- Statements that have all still to be resolved. -/
def replaced (stmts : List Stmt) : Outcome :=
  ⟨stmts, stmts.length⟩

/-- A statement that has to wait. -/
def waiting (item : Item) : Outcome :=
  ⟨[.item item], 1⟩

/-- A statement with nothing left to resolve. -/
def settled (item : Item) : Outcome :=
  ⟨[.item item], 0⟩

end Outcome

/-- Binds arguments to parameters; none while an argument is not known. -/
def bindArgs (view : View) : List (String × Expr) → Except Error (Option (List (String × Expr)))
  | [] => .ok (some [])
  | (param, arg) :: others => do
    match ← view.bind arg with
    | none => return none
    | some value => return (← bindArgs view others).map ((param, value) :: ·)

/-- The statements of an inline function in place of a call. -/
def expand (session : Session) (call : Call) (func : FunctionSymbol) : Except Error Outcome := do
  -- Arguments are bound where the call stands, before they replace the parameters.
  let name := func.decl.name
  let params := func.decl.params
  if call.expansion.contains name then
    throw (.recursiveMacro call.pos name)
  else if params.length ≠ call.args.length then
    throw (.argumentCount call.pos name params.length call.args.length)
  else
    match ← bindArgs (viewOf session call.ns call.pos) (params.zip call.args) with
    | none => return .waiting (.call call)
    | some args =>
      return .replaced (spliceAll (Entries.ofPairs args) (call.expansion ++ [name]) func.body)

/-- A call: an expansion, or a jump to the subroutine once it is lowered. -/
def call (session : Session) (call : Call) : Except Error Outcome :=
  match session.scopes.lookup? call.name call.ns with
  | none => .error (.unknownFunction call.pos call.name)
  | some (_, .function func) =>
    if func.decl.isInline then expand session call func
    else if call.args ≠ [] then
      .error (.argumentCount call.pos call.name 0 call.args.length)
    else
      -- A subroutine that is not lowered yet has no entry to jump to.
      match func.entry with
      | some entry => .ok (.waiting
        (.instruction (.unresolved .jsr (.address (.name entry)) call.ns call.pos)))
      | none => .ok (.waiting (.call call))
  | some _ => .error (.notAFunction call.pos call.name)

/-- Whether an operand is known to lie in the zero page. -/
def inZeroPage (operand : Operand Expr) : Bool :=
  match operand.value? with
  | some (.number n) => 0 ≤ n.toInt && n.toInt < 0x100
  | _ => false

/-- An instruction with its operand bound and its mode chosen. -/
def instruction (session : Session) (line : Instruction) : Except Error Outcome := do
  let view := viewOf session line.ns line.pos
  let bound ← match line.operand.value? with
    | none => pure (some line.operand)
    | some e => do pure ((← view.bind e).map fun value => line.operand.map fun _ => value)
  match bound with
  | none => return .waiting (.instruction line)
  | some operand =>
    -- The short form is taken only if the operand is a number already.
    match session.cpu.select line.op operand.shape (inZeroPage operand) with
    | some mode => return .settled (.instruction { line with operand, mode := some mode })
    | none => throw (.invalidOperand line.pos line.render)

/-- Binds each expression that can be bound, and counts the others. -/
def bindEach (view : View) : List Expr → Except Error (List Expr × Nat)
  | [] => .ok ([], 0)
  | e :: others => do
    let bound ← view.bind e
    let (rest, unresolved) ← bindEach view others
    match bound with
    | some e => return (e :: rest, unresolved)
    | none => return (e :: rest, unresolved + 1)

/-- A variable with its size, address and initial values bound. -/
def variableOf (session : Session) (var : Variable) : Except Error Outcome := do
  let view := viewOf session var.ns var.pos
  let size ← view.sizeOfVariable var
  let (address, addressOpen) ← match var.address with
    | none => pure (none, 0)
    | some address => do
      match ← view.bind address with
      | some bound => pure (some bound, 0)
      | none => pure (some address, 1)
  let (init, initOpen) ← match var.init with
    | some ⟨.values exprs, pos⟩ => do
      let (exprs, unresolved) ← bindEach view exprs
      pure (some ⟨.values exprs, pos⟩, unresolved)
    | init => pure (init, 0)
  let sizeOpen := if size.isNone then 1 else 0
  return ⟨[.item (.var { var with size, address, init })], sizeOpen + addressOpen + initOpen⟩

/-- What one statement becomes in a round. -/
def stmt (s : Stmt) : SessionStep Outcome := do
  match s with
  | .function func => return .replaced (← Lowering.function func)
  | .conditional cond => return .replaced (← Lowering.conditional cond)
  | .item item =>
    match item with
    | .scopeBegin _ | .scopeEnd _ | .typeDecl _ => return ⟨[], 0⟩
    | .call c => Session.ask (call · c)
    | .ret r =>
      return .waiting (.instruction (.unresolved (Cpu.returnOp r.interrupt) .none .global r.pos))
    | .instruction line => Session.ask (instruction · line)
    | .var var => Session.ask (variableOf · var)
    | .label _ | .fileBegin _ | .fileEnd _ | .directive .. => return .settled item
    | .functionDecl _ | .clause _ | .initializer _ =>
      throw (.unstructured (item.pos?.getD {}) item.render)

/-- One round over all statements. -/
def round : List Stmt → SessionStep Outcome
  | [] => return ⟨[], 0⟩
  | first :: others => do
    let here ← stmt first
    let rest ← round others
    return ⟨here.stmts ++ rest.stmts, here.unresolved + rest.unresolved⟩

/-- The rounds that are left, after a number of them. -/
def roundsFrom (count : Nat) : Nat → List Stmt → SessionStep (List Stmt)
  | 0, _ => throw (.tooManyRounds .resolve count)
  | left + 1, stmts => do
    -- Nothing unresolved ends the rounds; nothing changed means that no round ever would.
    let next ← round stmts
    if next.unresolved = 0 then
      return next.stmts
    else if next.stmts = stmts then
      throw (.noProgress .resolve (count + 1) ((next.stmts.filter isPending).map Stmt.located))
    else
      roundsFrom (count + 1) left next.stmts

end Resolve

/-- Replaces statements until all are resolved. A round that changes nothing while something is
pending is an error, and so is one too many. -/
def resolve (stmts : List Stmt) : SessionStep (List Stmt) :=
  Resolve.roundsFrom 0 Resolve.maxRounds stmts

end CrossAsm

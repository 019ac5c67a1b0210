import CrossAsm.Pos
import CrossAsm.Expr
import CrossAsm.Namespace
import CrossAsm.Isa.Cpu
import CrossAsm.Isa.Register
import CrossAsm.Isa.Test
import CrossAsm.Stmt.Decl

/-! Instructions and control flow: clauses as written, and the blocks they govern. -/

namespace CrossAsm

/-- One machine instruction; its mode is chosen once its operand is known. -/
structure Instruction where
  /-- The mnemonic. -/
  op : Op
  /-- The operand. -/
  operand : Operand Expr
  /-- The addressing mode, once chosen. -/
  mode : Option Mode
  /-- The namespace the operand is read in. -/
  ns : Namespace
  /-- Where it stands. -/
  pos : Pos
  deriving DecidableEq

namespace Instruction

/-- An instruction whose mode is still open. -/
def unresolved (op : Op) (operand : Operand Expr) (ns : Namespace) (pos : Pos) : Instruction :=
  ⟨op, operand, none, ns, pos⟩

/-- The encoded length, once the mode is known. -/
def size (line : Instruction) : Option Nat :=
  line.mode.map Mode.length

/-- The instruction as it is shown. -/
def render (line : Instruction) : String :=
  match line.operand with
  | .none => line.op.name
  | operand => line.op.name ++ " " ++ (operand.map Expr.render).render

end Instruction

/-- A control-flow keyword with what belongs to it. -/
inductive ClauseKind where
  | ifTest (test : Test)
  | otherwise
  | whileTest (test : Test)
  | doBlock
  | forever
  | switchOn (register : Register)
  | caseOf (value : Expr)
  | byDefault
  deriving DecidableEq

/-- The head of a block, as written. -/
structure Clause where
  /-- The keyword and its test, register or value. -/
  kind : ClauseKind
  /-- Where it stands. -/
  pos : Pos
  deriving DecidableEq

/-- The shape of a control-flow statement. -/
inductive Form where
  | ifThen | ifElse | whileLoop | doWhile | forever | switch | switchDefault | case | default
  deriving DecidableEq

/-- The form's name in messages. -/
def Form.name : Form → String
  | .ifThen => "if"
  | .ifElse => "if_else"
  | .whileLoop => "while"
  | .doWhile => "do_while"
  | .forever => "forever"
  | .switch => "switch"
  | .switchDefault => "switch_default"
  | .case => "case"
  | .default => "default"

namespace Clause

/-- The form a clause opens. -/
def form (clause : Clause) : Form :=
  match clause.kind with
  | .ifTest _ => .ifThen
  | .otherwise => .ifElse
  | .whileTest _ => .whileLoop
  | .doBlock => .doWhile
  | .forever => .forever
  | .switchOn _ => .switch
  | .caseOf _ => .case
  | .byDefault => .default

/-- The test of an `if` or a `while`. -/
def test? (clause : Clause) : Option Test :=
  match clause.kind with
  | .ifTest test | .whileTest test => some test
  | _ => none

/-- The clause as it is shown. -/
def render (clause : Clause) : String :=
  match clause.kind with
  | .ifTest test => "if (" ++ test.render ++ ")"
  | .otherwise => "else"
  | .whileTest test => "while (" ++ test.render ++ ")"
  | .doBlock => "do"
  | .forever => "forever"
  | .switchOn register => "switch (reg." ++ register.name ++ ")"
  | .caseOf value => "case #" ++ value.render
  | .byDefault => "default"

end Clause

/-- A clause and the statements it governs. -/
structure Block (α : Type) where
  /-- The clause. -/
  clause : Clause
  /-- The statements. -/
  body : List α := []
  /-- Whether statements are still being added. -/
  isOpen : Bool := false

/-- A control-flow statement. A switch has a block without statements for itself, and after it the
blocks of its cases in order. -/
structure Conditional (α : Type) where
  /-- Its shape. -/
  form : Form
  /-- Its first block. -/
  first : Block α
  /-- The blocks after the first. -/
  others : List (Block α) := []
  /-- How many of its blocks are open around the statement being read. -/
  depth : Nat := 0
  /-- The trailing test of a `do` loop. -/
  post : Option Test := none
  /-- The namespace it stands in. -/
  ns : Namespace

namespace Conditional

variable {α : Type}

/-- A conditional with one empty block. -/
def ofClause (clause : Clause) (ns : Namespace) : Conditional α :=
  { form := clause.form, first := { clause }, ns }

/-- All blocks in order. -/
def blocks (cond : Conditional α) : List (Block α) :=
  cond.first :: cond.others

/-- Where the conditional stands. -/
def pos (cond : Conditional α) : Pos :=
  cond.first.clause.pos

/-- Whether the conditional selects among cases. -/
def isSwitch (cond : Conditional α) : Bool :=
  cond.form = .switch || cond.form = .switchDefault

/-- The block being read, which is the last one. -/
def current (cond : Conditional α) : Block α :=
  cond.others.getLast?.getD cond.first

/-- Changes the block being read. -/
def modifyCurrent (cond : Conditional α) (f : Block α → Block α) : Conditional α :=
  match cond.others.getLast? with
  | none => { cond with first := f cond.first }
  | some last => { cond with others := cond.others.dropLast ++ [f last] }

/-- The conditional as it is shown, the statements of each block counted. -/
def render (cond : Conditional α) : String :=
  String.join (cond.blocks.map fun block =>
    block.clause.render ++ " \x7b " ++ toString block.body.length ++ " token(s) \x7d ") ++
  (match cond.post with
    | some test => "while (" ++ test.render ++ ")"
    | none => "")

end Conditional

/-- A function with its statements. -/
structure Function (α : Type) where
  /-- Its head. -/
  decl : FunctionDecl
  /-- Its statements. -/
  body : List α := []
  /-- The namespace of its locals. -/
  ns : Namespace

/-- The function as it is shown, its statements counted. -/
def Function.render {α : Type} (func : Function α) : String :=
  func.decl.render ++ " \x7b " ++ toString func.body.length ++ " token(s) \x7d"

end CrossAsm

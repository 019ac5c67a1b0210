import CrossAsm.Nesting
import CrossAsm.Proofs.Lockstep

/-! Nesting does not look at the values of statements: reading statements whose values are spelled
another way gives the same trees, spelled that way. -/

namespace CrossAsm

/-- Another way to spell values, and the parameters of the function they stand in. -/
structure Respelling where
  /-- How a value is spelled. -/
  value : Expr → Expr
  /-- How parameters are spelled. -/
  params : List String → List String

/-- Everything spelled as it is. -/
def Respelling.same : Respelling :=
  ⟨id, id⟩

variable (r : Respelling)

/-! ### Statements spelled another way -/

/-- An initializer with its values spelled another way. -/
def Initializer.respelled (init : Initializer) : Initializer :=
  match init.value with
  | .values exprs => { init with value := .values (exprs.map r.value) }
  | .text _ => init

/-- A dimension with its length spelled another way. -/
def Dim.respelled : Dim → Dim
  | .sized length => .sized (r.value length)
  | dim => dim

/-- A variable with its address, its length and its initial values spelled another way. -/
def Variable.respelled (var : Variable) : Variable :=
  { var with
    address := var.address.map r.value
    dim := var.dim.respelled r
    init := var.init.map (·.respelled r) }

/-- A clause with its value spelled another way. -/
def Clause.respelled (clause : Clause) : Clause :=
  match clause.kind with
  | .caseOf value => { clause with kind := .caseOf (r.value value) }
  | _ => clause

/-- The head of a function with its parameters spelled another way. -/
def FunctionDecl.respelled (decl : FunctionDecl) : FunctionDecl :=
  { decl with params := r.params decl.params }

/-- A flat item with its values spelled another way; the head of a function in it has none. -/
def Item.respelled : Item → Item
  | .instruction line => .instruction { line with operand := line.operand.map r.value }
  | .call c => .call { c with args := c.args.map r.value }
  | .var v => .var (v.respelled r)
  | .initializer init => .initializer (init.respelled r)
  | .clause c => .clause (c.respelled r)
  | other => other

mutual

/-- A statement with its values spelled another way; a function in it has values of its own. -/
def Stmt.respelled : Stmt → Stmt
  | .item i => .item (i.respelled r)
  | .conditional ⟨form, first, others, depth, post, ns⟩ =>
    .conditional ⟨form, respelledBlock first, respelledBlocks others, depth, post, ns⟩
  | .function func => .function func

/-- A block with its values spelled another way. -/
def Stmt.respelledBlock : Block Stmt → Block Stmt
  | ⟨clause, body, isOpen⟩ => ⟨clause.respelled r, respelledAll body, isOpen⟩

/-- Blocks with their values spelled another way. -/
def Stmt.respelledBlocks : List (Block Stmt) → List (Block Stmt)
  | [] => []
  | block :: others => respelledBlock block :: respelledBlocks others

/-- Statements with their values spelled another way. -/
def Stmt.respelledAll : List Stmt → List Stmt
  | [] => []
  | stmt :: others => Stmt.respelled stmt :: respelledAll others

end

/-- Statements are spelled one by one. -/
theorem Stmt.respelledAll_eq (stmts : List Stmt) :
    respelledAll r stmts = stmts.map (respelled r) := by
  -- By induction on the statements.
  induction stmts with
  | nil => rfl
  | cons stmt _ ih => rw [respelledAll, ih, List.map_cons]

/-- Blocks are spelled one by one. -/
theorem Stmt.respelledBlocks_eq (blocks : List (Block Stmt)) :
    respelledBlocks r blocks = blocks.map (respelledBlock r) := by
  -- By induction on the blocks.
  induction blocks with
  | nil => rfl
  | cons block _ ih => rw [respelledBlocks, ih, List.map_cons]

/-- A block is spelled statement by statement. -/
theorem Stmt.respelledBlock_eq (block : Block Stmt) :
    respelledBlock r block =
      ⟨block.clause.respelled r, block.body.map (respelled r), block.isOpen⟩ := by
  -- The clause and the mark are spelled at once, the body as a list.
  obtain ⟨clause, body, isOpen⟩ := block
  rw [respelledBlock, respelledAll_eq]

/-- A conditional with its values spelled another way. -/
def Conditional.respelled (cond : Conditional Stmt) : Conditional Stmt :=
  { cond with
    first := Stmt.respelledBlock r cond.first
    others := cond.others.map (Stmt.respelledBlock r) }

/-- A conditional is spelled block by block. -/
theorem Stmt.respelled_conditional (cond : Conditional Stmt) :
    Stmt.respelled r (.conditional cond) = .conditional (cond.respelled r) := by
  -- Its blocks are the first one and the list of the others.
  rw [Stmt.respelled, respelledBlocks_eq, Conditional.respelled]

/-- A function with its values and parameters spelled another way. -/
def Function.respelled (func : Function Stmt) : Function Stmt :=
  { func with decl := func.decl.respelled r, body := func.body.map (Stmt.respelled r) }

/-- A container with its values spelled another way. -/
def Frame.respelled : Frame → Frame
  | .function func depth => .function (func.respelled r) depth
  | .conditional cond oneLine => .conditional (cond.respelled r) oneLine

/-! ### What the spelling does not touch -/

/-- As many values are given. -/
theorem Initializer.count_respelled (init : Initializer) :
    (init.respelled r).count = init.count := by
  -- Expressions are spelled one by one, and text not at all.
  obtain ⟨exprs | content, pos⟩ := init
  · simp [respelled, count]
  · rfl

/-- A clause opens the same form. -/
@[simp]
theorem Clause.form_respelled (clause : Clause) : (clause.respelled r).form = clause.form := by
  -- The form depends on the word of the clause and not on its test.
  obtain ⟨kind, pos⟩ := clause
  cases kind <;> rfl

/-- A clause stands where it stands. -/
@[simp]
theorem Clause.pos_respelled (clause : Clause) : (clause.respelled r).pos = clause.pos := by
  -- The position is beside the kind, and only the kind is spelled.
  obtain ⟨kind, pos⟩ := clause
  cases kind <;> rfl

/-- An `else` is one however values are spelled. -/
theorem Clause.kind_respelled_otherwise (clause : Clause) :
    (clause.respelled r).kind = .otherwise ↔ clause.kind = .otherwise := by
  -- Spelling leaves every kind what it is, with another value in it.
  obtain ⟨kind, pos⟩ := clause
  cases kind <;> simp [respelled]

namespace Conditional

/-- The block being read is the same one. -/
theorem current_respelled (cond : Conditional Stmt) :
    (cond.respelled r).current = Stmt.respelledBlock r cond.current := by
  -- It is the last of the others, or the first one if there are none.
  unfold current respelled
  rw [List.getLast?_map]
  cases cond.others.getLast? <;> rfl

/-- A change of the block being read that looks at no value. -/
theorem modifyCurrent_respelled (cond : Conditional Stmt) {f g : Block Stmt → Block Stmt}
    (same : ∀ block, g (Stmt.respelledBlock r block) = Stmt.respelledBlock r (f block)) :
    (cond.respelled r).modifyCurrent g = (cond.modifyCurrent f).respelled r := by
  -- Spelling goes through the blocks and keeps which one is the last.
  unfold modifyCurrent respelled
  simp only [List.getLast?_map]
  -- The last block is the same one, or the first is the only one.
  cases cond.others.getLast? with
  | none => simp [same]
  | some last => simp [same]

/-- A conditional that a clause opens. -/
theorem ofClause_respelled (clause : Clause) (ns : Namespace) :
    (ofClause (clause.respelled r) ns : Conditional Stmt) = (ofClause clause ns).respelled r := by
  -- The only block is the one of the clause, and is empty.
  unfold ofClause respelled
  rw [Clause.form_respelled]
  rfl

end Conditional

/-! ### Spelled as it is -/

/-- An initializer is what it is. -/
theorem Initializer.respelled_same (init : Initializer) : init.respelled .same = init := by
  -- Each expression is spelled as it is.
  obtain ⟨exprs | content, pos⟩ := init
  · simp [respelled, Respelling.same]
  · rfl

/-- A dimension is what it is. -/
theorem Dim.respelled_same (dim : Dim) : dim.respelled .same = dim := by
  -- The size is the only value of a dimension.
  cases dim <;> rfl

/-- A variable is what it is. -/
theorem Variable.respelled_same (var : Variable) : var.respelled .same = var := by
  -- The dimension, the address and the initializer are all that is spelled.
  have inits : var.init.map (·.respelled .same) = var.init := by
    simp only [Initializer.respelled_same, Option.map_id']
  rw [respelled, Dim.respelled_same, inits, Respelling.same, Option.map_id_fun, id]

/-- A clause is what it is. -/
theorem Clause.respelled_same (clause : Clause) : clause.respelled .same = clause := by
  -- The value that some kinds hold is spelled as it is.
  obtain ⟨kind, pos⟩ := clause
  cases kind <;> rfl

/-- An item is what it is. -/
theorem Item.respelled_same (item : Item) : item.respelled .same = item := by
  -- Each part of an item is spelled as it was.
  cases item with
  | instruction line =>
    obtain ⟨op, operand, mode, ns, pos⟩ := line
    cases operand <;> rfl
  | call call => simp [respelled, Respelling.same]
  | var var => rw [respelled, Variable.respelled_same]
  | initializer init => rw [respelled, Initializer.respelled_same]
  | clause clause => rw [respelled, Clause.respelled_same]
  | _ => rfl

mutual

/-- A statement is what it is. -/
theorem Stmt.respelled_same : (stmt : Stmt) → stmt.respelled .same = stmt
  | .item i => by rw [Stmt.respelled, Item.respelled_same]
  | .conditional ⟨form, first, others, depth, post, ns⟩ => by
    rw [Stmt.respelled, respelledBlock_same first, respelledBlocks_same others]
  | .function func => by rw [Stmt.respelled]

/-- A block is what it is. -/
theorem Stmt.respelledBlock_same : (block : Block Stmt) → respelledBlock .same block = block
  | ⟨clause, body, isOpen⟩ => by
    rw [respelledBlock, Clause.respelled_same, respelledAll_same body]

/-- Blocks are what they are. -/
theorem Stmt.respelledBlocks_same :
    (blocks : List (Block Stmt)) → respelledBlocks .same blocks = blocks
  | [] => rfl
  | block :: others => by
    rw [respelledBlocks, respelledBlock_same block, respelledBlocks_same others]

/-- Statements are what they are. -/
theorem Stmt.respelledAll_same : (stmts : List Stmt) → respelledAll .same stmts = stmts
  | [] => rfl
  | stmt :: others => by rw [respelledAll, respelled_same stmt, respelledAll_same others]

end

/-- Statements one by one are what they are. -/
theorem Stmt.map_respelled_same (stmts : List Stmt) : stmts.map (respelled .same) = stmts := by
  -- The list is the one that spelling recurses into.
  rw [← respelledAll_eq, respelledAll_same]

/-- A function is what it is. -/
theorem Function.respelled_same (func : Function Stmt) : func.respelled .same = func := by
  -- Its statements are all that is spelled.
  rw [respelled, Stmt.map_respelled_same]
  rfl

end CrossAsm

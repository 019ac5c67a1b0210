import CrossAsm.Stmt.Control
import CrossAsm.Stmt.Directive

/-! Statements: flat items as they are parsed, and the trees that structuring makes of them. -/

namespace CrossAsm

/-- A flat item of the statement stream. -/
inductive Item where
  | label (l : Label)
  | var (v : Variable)
  | initializer (i : Initializer)
  | typeDecl (d : TypeDecl)
  | functionDecl (d : FunctionDecl)
  | call (c : Call)
  | ret (r : Return)
  | clause (c : Clause)
  | instruction (i : Instruction)
  | scopeBegin (pos : Pos)
  | scopeEnd (pos : Pos)
  | fileBegin (name : String)
  | fileEnd (name : String)
  | directive (d : Directive) (pos : Pos)
  deriving DecidableEq

namespace Item

/-- Where an item stands; the marks around a file stand nowhere. -/
def pos? : Item → Option Pos
  | .label l => some l.pos
  | .var v => some v.pos
  | .initializer i => some i.pos
  | .typeDecl d => some d.pos
  | .functionDecl d => some d.pos
  | .call c => some c.pos
  | .ret r => some r.pos
  | .clause c => some c.pos
  | .instruction i => some i.pos
  | .scopeBegin pos | .scopeEnd pos | .directive _ pos => some pos
  | .fileBegin _ | .fileEnd _ => none

/-- The item as it is shown. -/
def render : Item → String
  | .label l => l.name ++ ":"
  | .var v => v.render
  | .initializer i => s!"= ({i.count} value(s))"
  | .typeDecl d => d.type.render
  | .functionDecl d => d.render
  | .call c => c.render
  | .ret _ => "return"
  | .clause c => c.render
  | .instruction i => "    " ++ i.render
  | .scopeBegin _ => "\x7b"
  | .scopeEnd _ => "\x7d"
  | .fileBegin name => "; begin " ++ name
  | .fileEnd name => "; end " ++ name
  | .directive d _ => d.render

end Item

/-- A statement: a flat item, or a function or conditional that holds statements. -/
inductive Stmt where
  | item (i : Item)
  | function (f : Function Stmt)
  | conditional (c : Conditional Stmt)

namespace Stmt

/-- Where a statement stands. -/
def pos? : Stmt → Option Pos
  | .item i => i.pos?
  | .function f => some f.decl.pos
  | .conditional c => some c.pos

/-- The statement as it is shown. -/
def render : Stmt → String
  | .item i => i.render
  | .function f => f.render
  | .conditional c => c.render

/-- The statement led by its position. -/
def located (stmt : Stmt) : String :=
  match stmt.pos? with
  | some pos => pos.render ++ ": " ++ stmt.render
  | none => stmt.render

mutual

/-- Whether two statements are the same tree. -/
def same : Stmt → Stmt → Bool
  | .item a, .item b => a = b
  | .function ⟨declA, bodyA, nsA⟩, .function ⟨declB, bodyB, nsB⟩ =>
    declA = declB && nsA = nsB && sameAll bodyA bodyB
  | .conditional ⟨formA, firstA, othersA, depthA, postA, nsA⟩,
    .conditional ⟨formB, firstB, othersB, depthB, postB, nsB⟩ =>
    formA = formB && depthA = depthB && postA = postB && nsA = nsB &&
      sameBlock firstA firstB && sameBlocks othersA othersB
  | _, _ => false

/-- Whether two blocks hold the same trees. -/
def sameBlock : Block Stmt → Block Stmt → Bool
  | ⟨clauseA, bodyA, openA⟩, ⟨clauseB, bodyB, openB⟩ =>
    clauseA = clauseB && openA = openB && sameAll bodyA bodyB

/-- Whether two lists of blocks hold the same trees. -/
def sameBlocks : List (Block Stmt) → List (Block Stmt) → Bool
  | [], [] => true
  | a :: restA, b :: restB => sameBlock a b && sameBlocks restA restB
  | _, _ => false

/-- Whether two lists of statements are the same trees. -/
def sameAll : List Stmt → List Stmt → Bool
  | [], [] => true
  | a :: restA, b :: restB => same a b && sameAll restA restB
  | _, _ => false

end

mutual

/-- Comparing trees part by part decides their equality. -/
theorem same_iff : (a b : Stmt) → (same a b = true ↔ a = b)
  | .item a, .item b => by simp [same]
  | .function ⟨declA, bodyA, nsA⟩, .function ⟨declB, bodyB, nsB⟩ => by
    have bodies := sameAll_iff bodyA bodyB
    simp [same, bodies, and_assoc, and_comm]
  | .conditional ⟨formA, firstA, othersA, depthA, postA, nsA⟩,
    .conditional ⟨formB, firstB, othersB, depthB, postB, nsB⟩ => by
    have firsts := sameBlock_iff firstA firstB
    have rests := sameBlocks_iff othersA othersB
    simp [same, firsts, rests]
    grind
  | .item _, .function _ => by simp [same]
  | .item _, .conditional _ => by simp [same]
  | .function _, .item _ => by simp [same]
  | .function _, .conditional _ => by simp [same]
  | .conditional _, .item _ => by simp [same]
  | .conditional _, .function _ => by simp [same]

/-- Comparing blocks part by part decides their equality. -/
theorem sameBlock_iff : (a b : Block Stmt) → (sameBlock a b = true ↔ a = b)
  | ⟨clauseA, bodyA, openA⟩, ⟨clauseB, bodyB, openB⟩ => by
    have bodies := sameAll_iff bodyA bodyB
    simp [sameBlock, bodies]
    grind

/-- Comparing lists of blocks part by part decides their equality. -/
theorem sameBlocks_iff : (a b : List (Block Stmt)) → (sameBlocks a b = true ↔ a = b)
  | [], [] => by simp [sameBlocks]
  | a :: restA, b :: restB => by
    simp [sameBlocks, sameBlock_iff a b, sameBlocks_iff restA restB]
  | [], _ :: _ => by simp [sameBlocks]
  | _ :: _, [] => by simp [sameBlocks]

/-- Comparing lists of statements part by part decides their equality. -/
theorem sameAll_iff : (a b : List Stmt) → (sameAll a b = true ↔ a = b)
  | [], [] => by simp [sameAll]
  | a :: restA, b :: restB => by simp [sameAll, same_iff a b, sameAll_iff restA restB]
  | [], _ :: _ => by simp [sameAll]
  | _ :: _, [] => by simp [sameAll]

end

/-- Statements are compared as trees. -/
instance : DecidableEq Stmt := fun a b => decidable_of_iff _ (same_iff a b)

end Stmt

end CrossAsm

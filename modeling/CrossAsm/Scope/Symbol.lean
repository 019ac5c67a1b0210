import CrossAsm.Stmt

/-! Symbols: what a name can stand for. -/

namespace CrossAsm

/-- A function under its name. -/
structure FunctionSymbol where
  /-- The function's head. -/
  decl : FunctionDecl
  /-- The statements of an inline function, for its calls. -/
  body : List Stmt
  /-- The label of its first instruction, once the function is lowered. -/
  entry : Option String

/-- What a name stands for. -/
inductive Symbol where
  | var (v : Variable)
  | function (f : FunctionSymbol)
  | label (l : Label)
  | type (t : TypeDef)

/-- The name of a type. -/
def TypeDef.name : TypeDef → String
  | .struct d => d.name
  | .typedef d => d.name
  | .enum d => d.name

/-- The name a symbol is defined under. -/
def Symbol.name : Symbol → String
  | .var v => v.name
  | .function f => f.decl.name
  | .label l => l.name
  | .type t => t.name

end CrossAsm

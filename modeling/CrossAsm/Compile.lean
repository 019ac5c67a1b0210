import CrossAsm.Layout
import CrossAsm.Nesting
import CrossAsm.Resolve
import CrossAsm.Source

/-! Compilation: all stages from pieces of source to an image. -/

namespace CrossAsm

/-- The statements of a chunk; the first error in it counts. -/
def Chunk.stmts (cpu : Cpu) (chunk : Chunk) : Except Error (List Stmt) :=
  match parse cpu (Token.ofText chunk.file chunk.row chunk.text) with
  | (items, []) => .ok (items.map .item)
  | (_, e :: _) => .error e

/-- The statements of a piece of source. -/
def Input.stmts (cpu : Cpu) : Input → Except Error (List Stmt)
  | .code chunk => chunk.stmts cpu
  | .fileBegin name => .ok [.item (.fileBegin name)]
  | .fileEnd name => .ok [.item (.fileEnd name)]
  | .directive d pos => .ok [.item (.directive d pos)]

/-- The statements of all pieces in order, up to the first error. -/
def scan (cpu : Cpu) : List Input → Except Error (List Stmt)
  | [] => .ok []
  | input :: others => do
    let here ← input.stmts cpu
    return here ++ (← scan cpu others)

/-- Compiles pieces of source into an image. -/
def compile (inputs : List Input) : SessionStep Image := do
  let stmts ← Session.ask fun session => scan session.cpu inputs
  let stmts ← nest stmts
  let stmts ← resolve stmts
  Session.ask fun session => layout session stmts

end CrossAsm

/-! Positions in source files. -/

namespace CrossAsm

/-- A place in a source file; rows and columns count from zero, columns in bytes. -/
structure Pos where
  /-- The name of the file. -/
  file : String := ""
  /-- The line within the file. -/
  row : Nat := 0
  /-- The byte within the line. -/
  col : Nat := 0
  deriving DecidableEq, Inhabited

/-- The position as it is shown, counting from one. -/
def Pos.render (pos : Pos) : String :=
  s!"{pos.file}:{pos.row + 1}:{pos.col + 1}"

end CrossAsm

import CrossAsm.Lexeme.Scan

/-! Tokens of a text, line by line; a block comment may stay open from one line to the next. -/

namespace CrossAsm

/-- A line being split into tokens. -/
structure SourceLine where
  /-- The name of the file. -/
  file : String
  /-- The row of the line within the file. -/
  row : Nat
  /-- The line's length in bytes. -/
  width : Nat

namespace SourceLine

/-- The column at which the unread rest of a line starts. -/
def column (line : SourceLine) (rest : List Char) : Nat :=
  line.width - Text.byteLength rest

/-- A token of the line that starts at a column. -/
def token (line : SourceLine) (lexeme : Lexeme) (col : Nat) : Token :=
  ⟨lexeme, line.file, line.row, col⟩

/-- Tokens of the unread rest of a line, and whether a block comment is open after it. The newline
token stands just after the start of the last thing read, at `stop` when nothing is left. -/
def tokens (line : SourceLine) (inBlock : Bool) (stop : Nat) : List Char → List Token × Bool
  | [] => ([line.token .newline stop], inBlock)
  | c :: rest =>
    let col := line.column (c :: rest)
    if inBlock then
      match c, rest with
      | '*', '/' :: rest => tokens line false (col + 1) rest
      | _, rest => tokens line true (col + 1) rest
    else if Text.isBlank c then
      tokens line false (col + 1) rest
    else
      match c, rest with
      | '/', '/' :: rest =>
        let comment := .comment (String.ofList (Text.trimStart rest))
        ([line.token comment col, line.token .newline (col + 1)], false)
      | '/', '*' :: rest => tokens line true (col + 1) rest
      | c, rest =>
        let (others, open?) := tokens line false (col + 1) (Lexeme.scan c rest).2
        (line.token (Lexeme.scan c rest).1 col :: others, open?)
  termination_by rest => rest.length
  decreasing_by
    all_goals simp only [List.length_cons]
    all_goals first
      | omega
      | exact Nat.lt_succ_of_le (Lexeme.scan_length _ _)

end SourceLine

namespace Token

/-- Tokens of consecutive lines, the first of them at a row. -/
def ofLines (file : String) (row : Nat) (inBlock : Bool) : List (List Char) → List Token
  | [] => []
  | line :: others =>
    let (tokens, open?) := SourceLine.tokens ⟨file, row, Text.byteLength line⟩ inBlock 0 line
    tokens ++ ofLines file (row + 1) open? others

/-- Tokens of a text whose first line stands at a row of its file. -/
def ofText (file : String) (row : Nat) (text : String) : List Token :=
  ofLines file row false (Text.lines text.toList)

end Token

end CrossAsm

import CrossAsm.Error
import CrossAsm.Lexeme

/-! A cursor over tokens, to which comments are invisible, and the parsing steps built on it. -/

namespace CrossAsm

/-- The tokens still to be read, and the position of the last one read. -/
structure Cursor where
  /-- The unread tokens, comments included. -/
  rest : List Token
  /-- The position that an unexpected end is reported at. -/
  last : Pos := {}

namespace Cursor

/-- The upcoming token and the cursor after it. -/
def next? (cursor : Cursor) : Option (Token × Cursor) :=
  match cursor.rest.dropWhile (·.lexeme.isComment) with
  | [] => none
  | token :: rest => some (token, ⟨rest, token.pos⟩)

/-- The upcoming token. -/
def peek? (cursor : Cursor) : Option Token :=
  cursor.next?.map (·.1)

/-- Reads on past tokens of a class, from the position of the last one read. -/
def skipFrom (p : Lexeme → Bool) (last : Pos) : List Token → Cursor
  | [] => ⟨[], last⟩
  | token :: rest =>
    if token.lexeme.isComment then skipFrom p last rest
    else if p token.lexeme then skipFrom p token.pos rest
    else ⟨token :: rest, last⟩

/-- Reads on past tokens of a class. -/
def skip (p : Lexeme → Bool) (cursor : Cursor) : Cursor :=
  skipFrom p cursor.last cursor.rest

/-- Reads on to the end of the line, from the position of the last token read. -/
def skipLineFrom (last : Pos) : List Token → Cursor
  | [] => ⟨[], last⟩
  | token :: rest =>
    if token.lexeme = .newline then ⟨token :: rest, last⟩ else skipLineFrom token.pos rest

/-- Reads on to the end of the line. -/
def skipLine (cursor : Cursor) : Cursor :=
  skipLineFrom cursor.last cursor.rest

end Cursor

/-- A parsing step: it reads tokens and fails with an error where it stands. -/
abbrev Parse : Type → Type := EStateM Error Cursor

namespace Parse

variable {α β : Type}

/-- The upcoming token, left in place. -/
def peek? : Parse (Option Token) := do
  return (← get).peek?

/-- The upcoming token, read. -/
def next? : Parse (Option Token) := do
  match (← get).next? with
  | some (token, cursor) =>
    set cursor
    return some token
  | none => return none

/-- Where the upcoming token stands, or nowhere at the end. -/
def here : Parse Pos := do
  match ← peek? with
  | some token => return token.pos
  | none => return {}

/-- Fails with the end of input. -/
def failAtEnd : Parse α := do
  throw (.unexpectedEnd (← get).last)

/-- Fails with the upcoming token, or with the end of input. -/
def unexpected : Parse α := do
  match ← peek? with
  | some token => throw (.unexpectedToken token.pos token.lexeme.render)
  | none => failAtEnd

/-- The upcoming token, read; there must be one. -/
def next : Parse Token := do
  match ← next? with
  | some token => return token
  | none => failAtEnd

/-- Whether the upcoming token is of a class. -/
def isAt (p : Lexeme → Bool) : Parse Bool := do
  match ← peek? with
  | some token => return p token.lexeme
  | none => return false

/-- Reads the upcoming token if it is of a class. -/
def accept? (select : Lexeme → Option α) : Parse (Option (α × Pos)) := do
  match ← peek? with
  | some token =>
    match select token.lexeme with
    | some value =>
      let _ ← next?
      return some (value, token.pos)
    | none => return none
  | none => return none

/-- Reads the upcoming token, which must be of a class. -/
def require (select : Lexeme → Option α) : Parse (α × Pos) := do
  match ← accept? select with
  | some found => return found
  | none => unexpected

/-- Selects one exact lexeme. -/
def exactly (lexeme : Lexeme) (candidate : Lexeme) : Option Unit :=
  if candidate = lexeme then some () else none

/-- Reads a glyph if it comes next. -/
def eat (glyph : Glyph) : Parse Bool := do
  return (← accept? (exactly (.glyph glyph))).isSome

/-- Reads a glyph that must come next. -/
def expect (glyph : Glyph) : Parse Pos := do
  return (← require (exactly (.glyph glyph))).2

/-- Whether a glyph comes next. -/
def isAtGlyph (glyph : Glyph) : Parse Bool :=
  isAt (· = .glyph glyph)

/-- Selects identifiers. -/
def identName : Lexeme → Option String
  | .ident name => some name
  | _ => none

/-- Reads an identifier. -/
def ident : Parse String := do
  return (← require identName).1

/-- Reads on past tokens of a class. -/
def skip (p : Lexeme → Bool) : Parse Unit :=
  modify (Cursor.skip p)

/-- Reads on past ends of lines. -/
def skipNewlines : Parse Unit :=
  skip (· = .newline)

/-- Repeats a step on its own result until it ends, at most a number of times. -/
def iterate (step : α → Parse (α ⊕ β)) : Nat → α → Parse β
  | 0, _ => failAtEnd
  | rounds + 1, a => do
    match ← step a with
    | .inl a => iterate step rounds a
    | .inr b => return b

/-- Repeats a step on its own result until it ends. A step that goes on reads a token, so there are
no more rounds than tokens, and one to end. -/
def loop (step : α → Parse (α ⊕ β)) (a : α) : Parse β := do
  iterate step ((← get).rest.length + 1) a

/-- Items with a separator between them, up to a closing glyph that is left in place. -/
def sepBy (item : Parse α) (separator close : Glyph) : Parse (List α) := do
  if ← isAtGlyph close then
    return []
  else
    loop (fun items => do
      let items := items ++ [← item]
      if ← eat separator then return .inl items else return .inr items) []

end Parse

end CrossAsm

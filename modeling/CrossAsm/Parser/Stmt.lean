import CrossAsm.Parser.Expr
import CrossAsm.Stmt

/-! Statements: one flat item for each, or two for a variable with an initializer. -/

namespace CrossAsm

namespace Parse

/-- The head of a function, after its keyword. -/
def functionDecl (keyword : Keyword) (pos : Pos) : Parse FunctionDecl := do
  let kind : FunctionKind ← match keyword with
    | .function => pure .subroutine
    | .inline => pure .inline
    | _ => do
      if ← eat .period then pure (.interrupt (some (← ident))) else pure (.interrupt none)
  let noreturn := (← accept? (exactly (.keyword .noreturn))).isSome
  let name ← ident
  let params ← parens (sepBy ident .comma .rightParen)
  if kind ≠ .inline ∧ params ≠ [] then
    throw (.unexpectedParams pos name)
  else
    return { name, kind, noreturn, params, pos }

/-- Selects what may stand in a test: words, and numbers by their spelling. -/
def testWord : Lexeme → Option String
  | .ident word => some word
  | .number spelling _ => some spelling
  | _ => none

/-- Reads the words of a test, which closes at a position. -/
def testOfWords (words : List (String × Pos)) (close : Pos) : Except Error Test :=
  let (distance, words) : Distance × List (String × Pos) :=
    match words with
    | (word, pos) :: rest =>
      match Distance.parse? word with
      | some distance => (distance, rest)
      | none => (.near, (word, pos) :: rest)
    | [] => (.near, [])
  let (polarity, words) : Polarity × List (String × Pos) :=
    match words with
    | (word, pos) :: rest =>
      match Polarity.parse? word with
      | some polarity => (polarity, rest)
      | none => (.is, (word, pos) :: rest)
    | [] => (.is, [])
  match words with
  | [] => .error (.unexpectedToken close "empty test")
  | (word, pos) :: rest =>
    match Condition.parse? word with
    | none => .error (.unexpectedToken pos ("condition " ++ word))
    | some condition =>
      match rest with
      | [] => .ok { distance, polarity, condition }
      | (extra, pos) :: _ => .error (.unexpectedToken pos ("identifier " ++ extra))

/-- A test in parentheses. -/
def test : Parse Test := do
  let _ ← expect .leftParen
  let words ← loop (fun words => do
    if ← isAtGlyph .rightParen then
      return .inr words
    else
      return .inl (words ++ [← require testWord])) []
  let close ← expect .rightParen
  match testOfWords words close with
  | .ok test => return test
  | .error e => throw e

/-- A register in parentheses. -/
def register : Parse Register := do
  let _ ← expect .leftParen
  let pos ← here
  let head ← ident
  let word ← if ← eat .period then pure (head ++ "." ++ (← ident)) else pure head
  let _ ← expect .rightParen
  match Register.parse? word with
  | some register => return register
  | none => throw (.unexpectedToken pos (Register.unknownMessage word))

/-- What follows a control-flow keyword. -/
def clauseKind (keyword : Keyword) : Parse ClauseKind := do
  match keyword with
  | .ifWord => return .ifTest (← test)
  | .elseWord => return .otherwise
  | .whileWord => return .whileTest (← test)
  | .doWord => return .doBlock
  | .forever => return .forever
  | .switch => return .switchOn (← register)
  | .case =>
    let _ ← eat .hash
    return .caseOf (← expr)
  | _ => return .byDefault

/-- An index register of the given letter, in either case. -/
def index (letter : String) : Parse Unit := do
  let (word, pos) ← require identName
  if Text.lower word = letter then
    return ()
  else
    throw (.unexpectedToken pos (Lexeme.ident word).render)

/-- Whether a lexeme can start an operand. -/
def startsOperand : Lexeme → Bool
  | .glyph .hash | .glyph .leftParen | .ident _ | .number .. | .char _ | .glyph .minus
  | .glyph .tilde | .glyph .less | .glyph .greater | .keyword .sizeof => true
  | _ => false

/-- The operand of an instruction, after its opening parenthesis. -/
def indirectOperand : Parse (Operand Expr) := do
  let e ← expr
  if ← eat .comma then
    index "x"
    let _ ← expect .rightParen
    return .indexedIndirect e
  else
    let _ ← expect .rightParen
    if ← eat .comma then
      index "y"
      return .indirectIndexed e
    else
      return .indirect e

/-- The operand of an instruction that is an address, an indexed address or the accumulator. -/
def directOperand (cpu : Cpu) (op : Op) : Parse (Operand Expr) := do
  let e ← expr
  if ← eat .comma then
    let (word, pos) ← require identName
    match Text.lower word with
    | "x" => return .indexedX e
    | "y" => return .indexedY e
    | _ => throw (.unexpectedToken pos (Lexeme.ident word).render)
  else
    match e with
    | .name word =>
      if Text.lower word = "a" ∧ (cpu.opcode op .accumulator).isSome then
        return .accumulator
      else
        return .address e
    | _ => return .address e

/-- The operand of an instruction. -/
def operand (cpu : Cpu) (op : Op) : Parse (Operand Expr) := do
  if ← isAt startsOperand then
    if ← eat .hash then
      return .immediate (← expr)
    else if ← eat .leftParen then
      indirectOperand
    else
      directOperand cpu op
  else
    return .none

/-- The array dimension of a declaration. -/
def dim : Parse Dim := do
  if ← eat .leftBracket then
    if ← eat .rightBracket then
      return .unsized
    else
      let length ← expr
      let _ ← expect .rightBracket
      return .sized length
  else
    return .scalar

/-- Selects text literals. -/
def textLiteral : Lexeme → Option String
  | .text content => some content
  | _ => none

/-- The values of a braced initializer, after its opening brace. -/
def bracedValues : Parse (List Expr) :=
  loop (fun values => do
    skipNewlines
    if ← eat .rightCurly then
      return .inr values
    else
      let values := values ++ [← expr]
      skipNewlines
      if ← eat .comma then
        return .inl values
      else
        let _ ← expect .rightCurly
        return .inr values) []

/-- An initializer: a text, a value, or values in braces. -/
def initializer : Parse Initializer := do
  let pos ← match ← peek? with
    | some token => pure token.pos
    | none => failAtEnd
  match ← accept? textLiteral with
  | some (content, _) => return ⟨.text content, pos⟩
  | none =>
    if ← eat .leftCurly then
      return ⟨.values (← bracedValues), pos⟩
    else
      return ⟨.values [← expr], pos⟩

/-- A variable of a type, and its initializer if it has one. -/
def variableOf (shared : Bool) (type : String) (pos : Pos) : Parse (List Item) := do
  let name ← ident
  let dim ← dim
  let address ← if ← eat .colon then pure (some (← expr)) else pure none
  let init ← if ← eat .equal then pure (some (← initializer)) else pure none
  let var : Variable :=
    { type, name, shared, dim, address, init := none, ns := .global, size := none, pos }
  return .var var :: (init.map Item.initializer).toList

/-- The fields of a struct, after its opening brace. -/
def structFields : Parse (List Field) :=
  loop (fun fields => do
    skip fun lexeme => lexeme = .newline || lexeme = .glyph .comma || lexeme = .glyph .semicolon
    if ← eat .rightCurly then
      return .inr fields
    else
      let type ← ident
      let name ← ident
      return .inl (fields ++ [{ type, name, dim := ← dim }])) []

/-- The members of an enum, after its opening brace; each counts on from the one before. -/
def enumMembers : Parse (List (String × Int64)) :=
  loop (fun (members, next) => do
    skip fun lexeme => lexeme = .newline || lexeme = .glyph .comma
    if ← eat .rightCurly then
      return .inr members
    else
      let member ← ident
      let value ← if ← eat .equal then constWith members else pure next
      return .inl (Entries.insert member value members, value + 1))
    (([] : List (String × Int64)), 0)

/-- A type declaration, after its keyword. -/
def typeDecl (keyword : Keyword) (pos : Pos) : Parse TypeDecl := do
  match keyword with
  | .struct =>
    let name ← ident
    skipNewlines
    let _ ← expect .leftCurly
    return ⟨.struct ⟨name, ← structFields⟩, pos⟩
  | .typedef =>
    let type ← ident
    let name ← ident
    return ⟨.typedef ⟨name, type, ← dim⟩, pos⟩
  | _ =>
    let name ← ident
    skipNewlines
    let _ ← expect .leftCurly
    return ⟨.enum ⟨name, ← enumMembers⟩, pos⟩

/-- A statement that starts with a word: a label, an instruction, a variable or a call. -/
def wordStatement (cpu : Cpu) (word : String) (pos : Pos) : Parse (List Item) := do
  if ← eat .colon then
    return [.label ⟨word, pos⟩]
  else
    match Op.parse? word with
    | some op =>
      if cpu.supports op then
        return [.instruction (.unresolved op (← operand cpu op) .global pos)]
      else
        throw (.unsupportedOp pos word cpu)
    | none =>
      if ← isAt (identName · |>.isSome) then
        variableOf false word pos
      else if ← isAtGlyph .leftParen then
        let args ← parens (sepBy expr .comma .rightParen)
        return [.call { name := word, args, ns := .global, expansion := [], pos }]
      else
        unexpected

/-- One statement. -/
def statement (cpu : Cpu) : Parse (List Item) := do
  let token ← match ← peek? with
    | some token => pure token
    | none => failAtEnd
  let pos := token.pos
  match token.lexeme with
  | .keyword keyword =>
    match keyword with
    | .function | .inline | .interrupt =>
      let _ ← next
      return [.functionDecl (← functionDecl keyword pos)]
    | .ifWord | .elseWord | .whileWord | .doWord | .forever | .switch | .case | .default =>
      let _ ← next
      return [.clause ⟨← clauseKind keyword, pos⟩]
    | .returnWord =>
      let _ ← next
      return [.ret ⟨false, pos⟩]
    | .struct | .typedef | .enum =>
      let _ ← next
      return [.typeDecl (← typeDecl keyword pos)]
    | .shared =>
      let _ ← next
      let type ← ident
      variableOf true type pos
    | .noreturn | .sizeof => unexpected
  | .glyph .leftCurly =>
    let _ ← next
    return [.scopeBegin pos]
  | .glyph .rightCurly =>
    let _ ← next
    return [.scopeEnd pos]
  | .ident word =>
    let _ ← next
    wordStatement cpu word pos
  | _ => unexpected

end Parse

/-- Whether a lexeme stands between statements. -/
def Lexeme.isSeparator (lexeme : Lexeme) : Bool :=
  lexeme = .newline || lexeme = .glyph .semicolon

/-- Statements up to the end of the tokens, at most a number of them. An error ends its line, and
parsing goes on at the next. -/
def Cursor.statements (cpu : Cpu) : Nat → Cursor → List Item × List Error
  | 0, _ => ([], [])
  | rounds + 1, cursor =>
    let cursor := cursor.skip Lexeme.isSeparator
    if cursor.peek?.isNone then ([], [])
    else
      match Parse.statement cpu cursor with
      | .ok items after =>
        let (others, errors) := after.statements cpu rounds
        (items ++ others, errors)
      | .error e after =>
        let (others, errors) := after.skipLine.statements cpu rounds
        (others, e :: errors)

/-- Parses tokens into items, and collects the errors of lines that cannot be parsed. Each round
reads a token, so there are no more rounds than tokens. -/
def parse (cpu : Cpu) (tokens : List Token) : List Item × List Error :=
  Cursor.statements cpu (tokens.length + 1) ⟨tokens, {}⟩

end CrossAsm

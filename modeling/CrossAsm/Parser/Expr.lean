import CrossAsm.Parser.Cursor

/-! Expressions: six levels of left-associative operators over prefix operators and primaries. -/

namespace CrossAsm.Parse

/-- The operators of each level, from the loosest to the tightest. -/
def operatorLevels : List (List (Glyph × BinaryOp)) :=
  [[(.pipe, .or)],
   [(.caret, .xor)],
   [(.ampersand, .and)],
   [(.doubleLess, .shl), (.doubleGreater, .shr)],
   [(.plus, .add), (.minus, .sub)],
   [(.star, .mul), (.slash, .div), (.percent, .mod)]]

/-- The operator of a level that a lexeme spells. -/
def operatorOf (level : List (Glyph × BinaryOp)) : Lexeme → Option BinaryOp
  | .glyph glyph => Entries.get? glyph level
  | _ => none

/-- Operands joined by the operators of one level, grouped to the left. -/
def chain (level : List (Glyph × BinaryOp)) (operand : Parse Expr) : Parse Expr := do
  loop (fun lhs => do
    match ← accept? (operatorOf level) with
    | some (op, _) => return .inl (.binary op lhs (← operand))
    | none => return .inr lhs) (← operand)

/-- Operators of the given levels over a tighter operand. -/
def binary (operand : Parse Expr) : List (List (Glyph × BinaryOp)) → Parse Expr
  | [] => operand
  | level :: tighter => chain level (binary operand tighter)

/-- The prefix operator that a lexeme spells. -/
def prefixOp : Lexeme → Option UnaryOp
  | .glyph .minus => some .neg
  | .glyph .tilde => some .not
  | .glyph .less => some .lo
  | .glyph .greater => some .hi
  | _ => none

/-- Prefix operators before a primary, outermost first. -/
def unary (primary : Parse Expr) : Parse Expr :=
  loop (fun ops => do
    match ← accept? prefixOp with
    | some (op, _) => return .inl (ops ++ [op])
    | none => return .inr (ops.foldr .unary (← primary))) []

/-- The rest of a dotted name. -/
def nameFrom (head : String) : Parse String :=
  loop (fun path => do
    if ← eat .period then
      return .inl (path ++ "." ++ (← ident))
    else
      return .inr path) head

/-- A dotted name. -/
def name : Parse String := do
  nameFrom (← ident)

/-- An expression in parentheses. -/
def parens {α : Type} (inner : Parse α) : Parse α := do
  let _ ← expect .leftParen
  let value ← inner
  let _ ← expect .rightParen
  return value

/-- A literal, a parenthesised expression, a size, a byte of a value, or a name. -/
def primary (expression : Parse Expr) : Parse Expr := do
  let token ← next
  match token.lexeme with
  | .number _ value => return .number value
  | .char c => return .number (Int64.ofNat c.toNat)
  | .glyph .leftParen =>
    let e ← expression
    let _ ← expect .rightParen
    return e
  | .keyword .sizeof => return .sizeof (← parens name)
  | .ident word =>
    if (word = "lo" ∨ word = "hi") ∧ (← isAtGlyph .leftParen) then
      let e ← parens expression
      return .unary (if word = "lo" then .lo else .hi) e
    else
      return .name (← nameFrom word)
  | lexeme => throw (.unexpectedToken token.pos lexeme.render)

/-- An expression with at most the given depth of parentheses. -/
def expressionWithin : Nat → Parse Expr
  | 0 => failAtEnd
  | depth + 1 => binary (unary (primary (expressionWithin depth))) operatorLevels

/-- An expression as written. Each pair of parentheses takes two tokens, so the tokens that are
left bound the depth. -/
def expression : Parse Expr := do
  expressionWithin ((← get).rest.length + 1)

/-- Folds an expression that is written at a position. -/
def foldAt (pos : Pos) (e : Expr) : Parse Expr :=
  match e.fold with
  | .ok e => return e
  | .error cause => throw (.eval pos cause)

/-- An expression, its constant parts folded. -/
def expr : Parse Expr := do
  let pos ← here
  foldAt pos (← expression)

/-- An expression that is a number once known names are replaced. -/
def constWith (known : List (String × Int64)) : Parse Int64 := do
  let pos ← here
  let e ← expr
  let e ← foldAt pos (e.substitute (known.map fun (name, value) => (name, .number value)))
  match e.number? with
  | some value => return value
  | none => throw (.notAConstant pos e.render)

/-- An expression that is a number. -/
def const : Parse Int64 :=
  constWith []

end CrossAsm.Parse

import CrossAsm.Parser.Stmt
import CrossAsm.Proofs.Parser.Coupling

/-! Two runs over statements side by side: each rule keeps what belongs together. Where nothing
leads over the end of a line, no braced values and no bodies of structs and enums are read. -/

namespace CrossAsm

namespace Parse

open Coupling (Any Round)

variable {C : Coupling} {bound : Nat}

/-- The rest of a statement behind its first token, if the token can start one. -/
def statementFrom (cpu : Cpu) (pos : Pos) : Lexeme → Option (Parse (List Item))
  | .keyword keyword =>
    match keyword with
    | .function | .inline | .interrupt => some do
      return [.functionDecl (← functionDecl keyword pos)]
    | .ifWord | .elseWord | .whileWord | .doWord | .forever | .switch | .case | .default => some do
      return [.clause ⟨← clauseKind keyword, pos⟩]
    | .returnWord => some (pure [.ret ⟨false, pos⟩])
    | .struct | .typedef | .enum => some do
      return [.typeDecl (← typeDecl keyword pos)]
    | .shared => some do
      variableOf true (← ident) pos
    | .noreturn | .sizeof => none
  | .glyph .leftCurly => some (pure [.scopeBegin pos])
  | .glyph .rightCurly => some (pure [.scopeEnd pos])
  | .ident word => some (wordStatement cpu word pos)
  | _ => none

/-- A statement is read from its first token on, or that token is not expected. -/
theorem statement_of_next? (cpu : Cpu) {cursor after : Cursor} {token : Token}
    (found : cursor.next? = some (token, after)) :
    statement cpu cursor =
      match statementFrom cpu token.pos token.lexeme with
      | some further => further after
      | none => .error (.unexpectedToken token.pos token.lexeme.render) cursor := by
  have seen : peek? cursor = .ok (some token) cursor := by
    show EStateM.Result.ok (Option.map _ cursor.next?) _ = _
    rw [found]
    rfl
  have taken : next cursor = .ok token after := by
    refine bind_of_ok (a := some token) ?_
    rw [next?_eq, found]
  have refused : (unexpected : Parse (List Item)) cursor =
      .error (.unexpectedToken token.pos token.lexeme.render) cursor :=
    bind_of_ok seen
  have same : (pure token : Parse Token) cursor = .ok token cursor := rfl
  unfold statement
  rw [bind_of_ok seen]
  simp only [bind_of_ok same]
  -- By the first token: it is taken where a statement can start with it, and refused unread
  -- elsewhere.
  obtain ⟨lexeme, pos⟩ := token
  cases lexeme with
  | keyword keyword =>
    -- Two of the reserved words start no statement.
    cases keyword with
    | noreturn | sizeof => exact refused
    | _ => exact bind_of_ok taken
  | glyph glyph =>
    -- Of the glyphs only braces start one.
    cases glyph with
    | leftCurly | rightCurly => exact bind_of_ok taken
    | _ => exact refused
  | ident word => exact bind_of_ok taken
  | _ => exact refused

/-- Without a token there is no statement. -/
theorem statement_of_none (cpu : Cpu) {cursor : Cursor} (none : cursor.next? = none) :
    statement cpu cursor = .error (.unexpectedEnd cursor.last) cursor := by
  -- The token is looked at first, and is missing.
  have seen : peek? cursor = .ok Option.none cursor := by
    show EStateM.Result.ok (Option.map _ cursor.next?) _ = _
    rw [none]
    rfl
  unfold statement
  rw [bind_of_ok seen]
  rfl

/-! ### Rounds of the loops in statements -/

/-- A round over the words of a test. -/
def wordStep (words : List (String × Pos)) :
    Parse (List (String × Pos) ⊕ List (String × Pos)) := do
  if ← isAtGlyph .rightParen then
    return .inr words
  else
    return .inl (words ++ [← require testWord])

/-- A round over values in braces. -/
def valueStep (values : List Expr) : Parse (List Expr ⊕ List Expr) := do
  skipNewlines
  if ← eat .rightCurly then
    return .inr values
  else
    let values := values ++ [← expr]
    skipNewlines
    if ← eat .comma then
      return .inl values
    else
      let _ ← expect .rightCurly
      return .inr values

/-- A round over the fields of a struct. -/
def fieldStep (fields : List Field) : Parse (List Field ⊕ List Field) := do
  skip fun lexeme => lexeme = .newline || lexeme = .glyph .comma || lexeme = .glyph .semicolon
  if ← eat .rightCurly then
    return .inr fields
  else
    let type ← ident
    let name ← ident
    return .inl (fields ++ [{ type, name, dim := ← dim }])

/-- A round over the members of an enum, each with the value that the one behind it counts on to. -/
def memberStep (found : List (String × Int64) × Int64) :
    Parse (List (String × Int64) × Int64 ⊕ List (String × Int64)) := do
  let (members, next) := found
  skip fun lexeme => lexeme = .newline || lexeme = .glyph .comma
  if ← eat .rightCurly then
    return .inr members
  else
    let member ← ident
    let value ← if ← eat .equal then constWith members else pure next
    return .inl (Entries.insert member value members, value + 1)

/-- A round over the words of a test reads one, or the test closes. -/
theorem wordStep_agree (words : List (String × Pos)) :
    C.Agree bound (Round Any) (wordStep words) (wordStep words) := by
  -- The closing parenthesis is looked for before a word is read.
  refine (isAtGlyph_agree .rightParen).bind fun n found _ => ?_
  split
  · exact .answer fun _ => trivial
  · exact (require_agree fun _ => rfl).bind fun _ _ took =>
      .answer (Nat.add_pos_right n (Nat.add_pos_left took _))

section Statements

variable (lax : C.Lax)

include lax

/-- Folding reads nothing. -/
theorem foldAt_agree (pos : Pos) (e : Expr) :
    C.Agree bound Any (foldAt pos e) (foldAt pos e) := by
  -- The expression is folded or fails, which both runs do.
  unfold foldAt
  split
  · exact .answer trivial
  · exact .failure lax _

/-- An expression, its constant parts folded. -/
theorem expr_agree : C.Agree bound (fun n _ => 0 < n) expr expr :=
  here_agree.bind fun _ pos _ => expression_agree.bind fun _ e _ =>
    (foldAt_agree lax pos e).mono fun _ _ _ => by omega

/-- A number. -/
theorem constWith_agree (known : List (String × Int64)) :
    C.Agree bound Any (constWith known) (constWith known) := by
  refine here_agree.bind fun _ pos _ => (expr_agree lax).bind fun _ e _ => ?_
  -- What is known of names is put in, and the expression is folded again.
  refine (foldAt_agree lax pos _).bind fun _ e _ => ?_
  split
  · exact .answer trivial
  · exact .failure lax _

/-- The head of a function. -/
theorem functionDecl_agree (keyword : Keyword) (pos : Pos) :
    C.Agree bound Any (functionDecl keyword pos) (functionDecl keyword pos) := by
  unfold functionDecl
  extract_lets named
  -- Whatever the kind, the name and the parameters follow.
  have rest : ∀ kind, C.Agree bound Any (named kind) (named kind) := by
    intro kind
    refine (accept?_agree fun _ => rfl).bind fun _ noreturn _ => ?_
    refine ident_agree.bind fun _ name _ => ?_
    refine (parens_agree (sepBy_agree ident_agree _ _)).bind fun _ params _ => ?_
    split
    · exact .failure lax _
    · exact .answer trivial
  split
  · exact rest _
  · exact rest _
  · refine (eat_agree .period).bind fun _ found _ => ?_
    split
    · exact ident_agree.bind fun _ _ _ => rest _
    · exact rest _

/-- A test in parentheses. -/
theorem test_agree : C.Agree bound Any test test := by
  -- The words are read up to the parenthesis, and then looked up.
  refine (expect_agree .leftParen).bind fun _ _ _ => ?_
  refine (loop_agree wordStep_agree []).bind fun _ words _ => ?_
  refine (expect_agree .rightParen).bind fun _ close _ => ?_
  split
  · exact .answer trivial
  · exact .failure lax _

/-- A register in parentheses. -/
theorem register_agree : C.Agree bound Any register register := by
  refine (expect_agree .leftParen).bind fun _ _ _ => here_agree.bind fun _ pos _ => ?_
  refine ident_agree.bind fun _ head _ => (eat_agree .period).bind fun _ found _ => ?_
  extract_lets closed
  -- With a period or without, the parenthesis closes behind the last word.
  have rest : ∀ word, C.Agree bound Any (closed word) (closed word) := by
    intro word
    refine (expect_agree .rightParen).bind fun _ _ _ => ?_
    split
    · exact .answer trivial
    · exact .failure lax _
  split
  · exact ident_agree.bind fun _ word _ => rest (head ++ "." ++ word)
  · exact rest head

/-- What follows a control-flow keyword. -/
theorem clauseKind_agree (keyword : Keyword) :
    C.Agree bound Any (clauseKind keyword) (clauseKind keyword) := by
  -- By the keyword, which both runs have in hand.
  unfold clauseKind
  split
  · exact (test_agree lax).bind fun _ _ _ => .answer trivial
  · exact .answer trivial
  · exact (test_agree lax).bind fun _ _ _ => .answer trivial
  · exact .answer trivial
  · exact .answer trivial
  · exact (register_agree lax).bind fun _ _ _ => .answer trivial
  · exact (eat_agree .hash).bind fun _ _ _ => (expr_agree lax).bind fun _ _ _ =>
      .answer trivial
  · exact .answer trivial

/-- An index register. -/
theorem index_agree (letter : String) :
    C.Agree bound Any (index letter) (index letter) := by
  -- Any word is read, and another one than the register is an error.
  refine (require_agree fun _ => rfl).bind fun _ word _ => ?_
  simp only
  split
  · exact .answer trivial
  · exact .failure lax _

/-- The operand of an instruction, after its opening parenthesis. -/
theorem indirectOperand_agree :
    C.Agree bound Any indirectOperand indirectOperand := by
  -- The comma stands inside the parentheses, behind them, or nowhere.
  refine (expr_agree lax).bind fun _ e _ => (eat_agree .comma).bind fun _ found _ => ?_
  split
  · exact (index_agree lax "x").bind fun _ _ _ => (expect_agree .rightParen).bind
      fun _ _ _ => .answer trivial
  · refine (expect_agree .rightParen).bind fun _ _ _ => ?_
    refine (eat_agree .comma).bind fun _ found _ => ?_
    split
    · exact (index_agree lax "y").bind fun _ _ _ => .answer trivial
    · exact .answer trivial

/-- The operand of an instruction that is not in parentheses. -/
theorem directOperand_agree (cpu : Cpu) (op : Op) :
    C.Agree bound Any (directOperand cpu op) (directOperand cpu op) := by
  -- The comma says whether an index register follows.
  refine (expr_agree lax).bind fun _ e _ => (eat_agree .comma).bind fun _ found _ => ?_
  split
  · refine (require_agree fun _ => rfl).bind fun _ word _ => ?_
    simp only
    split
    · exact .answer trivial
    · exact .answer trivial
    · exact .failure lax _
  · split
    · split <;> exact .answer trivial
    · exact .answer trivial

/-- The operand of an instruction. -/
theorem operand_agree (cpu : Cpu) (op : Op) :
    C.Agree bound Any (operand cpu op) (operand cpu op) := by
  -- An operand starts with a hash, a parenthesis, or an expression, if there is any.
  refine (isAt_agree _).bind fun _ found _ => ?_
  split
  · refine (eat_agree .hash).bind fun _ found _ => ?_
    split
    · exact (expr_agree lax).bind fun _ _ _ => .answer trivial
    · refine (eat_agree .leftParen).bind fun _ found _ => ?_
      split
      · exact indirectOperand_agree lax
      · exact directOperand_agree lax cpu op
  · exact .answer trivial

/-- The array dimension of a declaration. -/
theorem dim_agree : C.Agree bound Any dim dim := by
  -- There is no dimension, one that is left open, or one with a length.
  refine (eat_agree .leftBracket).bind fun _ found _ => ?_
  split
  · refine (eat_agree .rightBracket).bind fun _ found _ => ?_
    split
    · exact .answer trivial
    · exact (expr_agree lax).bind fun _ _ _ => (expect_agree .rightBracket).bind
        fun _ _ _ => .answer trivial
  · exact .answer trivial

/-- A round over values in braces reads one, or the closing brace. -/
theorem valueStep_agree (across : ¬ C.oneLine) (values : List Expr) :
    C.Agree bound (Round fun n _ => 0 < n) (valueStep values) (valueStep values) := by
  -- The ends of lines in front are read past, and then a brace or a value is there.
  refine (skip_agree across _).bind fun n _ _ => (eat_agree .rightCurly).bind fun m found took => ?_
  split
  · rename_i closed
    have some := took closed
    exact .answer fun before => by omega
  · refine (expr_agree lax).bind fun _ e some => (skip_agree across _).bind fun _ _ _ => ?_
    refine (eat_agree .comma).bind fun _ found _ => ?_
    split
    · exact .answer (Nat.add_pos_right n (Nat.add_pos_right m (Nat.add_pos_left some _)))
    · exact (expect_agree .rightCurly).bind fun _ _ _ => .answer fun before => by omega

/-- The values of a braced initializer, which may go on over lines. -/
theorem bracedValues_agree (across : ¬ C.oneLine) :
    C.Agree bound (fun n _ => 0 < n) bracedValues bracedValues :=
  loop_agree (valueStep_agree lax across) []

/-- An initializer. In a line it has no braces. -/
theorem initializer_agree : C.Agree bound Any initializer initializer := by
  unfold initializer
  extract_lets valued
  have rest : ∀ pos, C.Agree bound Any (valued pos) (valued pos) := by
    intro pos
    refine (accept?_agree fun _ => rfl).bind fun _ found _ => ?_
    -- Either a text is given, or values are.
    split
    · exact .answer trivial
    · have single : C.Agree bound Any
          (do return ⟨.values [← expr], pos⟩ : Parse Initializer)
          (do return ⟨.values [← expr], pos⟩) :=
        (expr_agree lax).bind fun _ _ _ => .answer trivial
      -- Values in braces go on over ends of lines, so within a line there are none.
      by_cases line : C.oneLine
      · refine (eat_leftCurly_agree (lax.flat line)).bind fun _ found absent => ?_
        rw [absent]
        exact single
      · refine (eat_agree .leftCurly).bind fun _ found _ => ?_
        split
        · exact (bracedValues_agree lax line).bind fun _ _ _ => .answer trivial
        · exact single
  -- By the token behind the sign, which has to be there.
  refine peek?_agree.bind fun _ found _ => ?_
  split
  · exact rest _
  · exact .failAtEnd lax

/-- A variable with its initializer. -/
theorem variableOf_agree (shared : Bool) (type : String) (pos : Pos) :
    C.Agree bound Any (variableOf shared type pos) (variableOf shared type pos) := by
  -- Whether there is an address, the initializer comes behind it.
  refine ident_agree.bind fun _ name _ => (dim_agree lax).bind fun _ dim _ => ?_
  refine (eat_agree .colon).bind fun _ found _ => ?_
  extract_lets addressed
  have rest : ∀ address, C.Agree bound Any (addressed address) (addressed address) := by
    intro address
    refine (eat_agree .equal).bind fun _ found _ => ?_
    split
    · exact (initializer_agree lax).bind fun _ _ _ => .answer trivial
    · exact .answer trivial
  split
  · exact (expr_agree lax).bind fun _ _ _ => rest _
  · exact rest _

/-- A round over the fields of a struct reads one, or the closing brace. -/
theorem fieldStep_agree (across : ¬ C.oneLine) (fields : List Field) :
    C.Agree bound (Round fun n _ => 0 < n) (fieldStep fields) (fieldStep fields) := by
  -- The ends of lines in front are read past, and then a brace or a field is there.
  refine (skip_agree across _).bind fun n _ _ => (eat_agree .rightCurly).bind fun m found took => ?_
  split
  · rename_i closed
    have some := took closed
    exact .answer fun before => by omega
  · exact ident_agree.bind fun _ type some => ident_agree.bind fun _ name _ =>
      (dim_agree lax).bind fun _ dim _ =>
        .answer (Nat.add_pos_right n (Nat.add_pos_right m (Nat.add_pos_left some _)))

/-- The fields of a struct, which may go on over lines. -/
theorem structFields_agree (across : ¬ C.oneLine) :
    C.Agree bound (fun n _ => 0 < n) structFields structFields :=
  loop_agree (fieldStep_agree lax across) []

/-- A round over the members of an enum reads one, or the closing brace. -/
theorem memberStep_agree (across : ¬ C.oneLine) (found : List (String × Int64) × Int64) :
    C.Agree bound (Round fun n _ => 0 < n) (memberStep found) (memberStep found) := by
  -- The ends of lines in front are read past, and then a brace or a member is there.
  obtain ⟨members, next⟩ := found
  refine (skip_agree across _).bind fun n _ _ => (eat_agree .rightCurly).bind fun m found took => ?_
  split
  · rename_i closed
    have some := took closed
    exact .answer fun before => by omega
  · refine ident_agree.bind fun _ member some => (eat_agree .equal).bind fun _ found _ => ?_
    split
    · exact (constWith_agree lax members).bind fun _ value _ =>
        .answer (Nat.add_pos_right n (Nat.add_pos_right m (Nat.add_pos_left some _)))
    · exact .answer (Nat.add_pos_right n (Nat.add_pos_right m (Nat.add_pos_left some _)))

/-- The members of an enum, which may go on over lines. -/
theorem enumMembers_agree (across : ¬ C.oneLine) :
    C.Agree bound (fun n _ => 0 < n) enumMembers enumMembers :=
  loop_agree (memberStep_agree lax across) ([], 0)

/-- A type declaration; in a line it is no struct and no enum. -/
theorem typeDecl_agree {keyword : Keyword} (pos : Pos)
    (fits : C.flat → keyword = .typedef) :
    C.Agree bound Any (typeDecl keyword pos) (typeDecl keyword pos) := by
  have aliased : C.Agree bound Any (typeDecl .typedef pos) (typeDecl .typedef pos) :=
    ident_agree.bind fun _ type _ => ident_agree.bind fun _ name _ =>
      (dim_agree lax).bind fun _ dim _ => .answer trivial
  -- Structs and enums read past ends of lines, which only runs over several lines do.
  by_cases line : C.oneLine
  · rw [fits (lax.flat line)]
    exact aliased
  · unfold typeDecl
    split
    · exact ident_agree.bind fun _ name _ => (skip_agree line _).bind fun _ _ _ =>
        (expect_agree .leftCurly).bind fun _ _ _ => (structFields_agree lax line).bind fun _ _ _ =>
          .answer trivial
    · exact aliased
    · exact ident_agree.bind fun _ name _ => (skip_agree line _).bind fun _ _ _ =>
        (expect_agree .leftCurly).bind fun _ _ _ => (enumMembers_agree lax line).bind fun _ _ _ =>
          .answer trivial

/-- A statement that starts with a word. -/
theorem wordStatement_agree (cpu : Cpu) (word : String) (pos : Pos) :
    C.Agree bound Any (wordStatement cpu word pos) (wordStatement cpu word pos) := by
  -- In the order in which it is tried: a label, an instruction, a variable, a call.
  refine (eat_agree .colon).bind fun _ found _ => ?_
  split
  · exact .answer trivial
  · split
    · split
      · exact (operand_agree lax cpu _).bind fun _ _ _ => .answer trivial
      · exact .failure lax _
    · refine (isAt_agree _).bind fun _ found _ => ?_
      split
      · exact variableOf_agree lax false word pos
      · refine (isAtGlyph_agree .leftParen).bind fun _ found _ => ?_
        split
        · exact (parens_agree (sepBy_agree (expr_agree lax) _ _)).bind fun _ _ _ =>
            .answer trivial
        · exact unexpected_agree

/-- The rest of a statement ends alike; in a line its first token leads over no end. -/
theorem statementFrom_agree {cpu : Cpu} {pos : Pos} {lexeme : Lexeme}
    {further : Parse (List Item)} (starts : statementFrom cpu pos lexeme = some further)
    (fits : C.flat → lexeme.spansLines = false) : C.Agree bound Any further further := by
  -- By the first token, which both runs have in hand.
  cases lexeme with
  | keyword keyword =>
    -- A word that is reserved decides what comes next.
    cases keyword with
    | function | inline | interrupt =>
      cases starts
      exact (functionDecl_agree lax _ pos).bind fun _ _ _ => .answer trivial
    | ifWord | elseWord | whileWord | doWord | forever | switch | case | default =>
      cases starts
      exact (clauseKind_agree lax _).bind fun _ _ _ => .answer trivial
    | returnWord =>
      cases starts
      exact .answer trivial
    | struct | typedef | enum =>
      cases starts
      refine (typeDecl_agree lax pos fun flat => ?_).bind fun _ _ _ => .answer trivial
      first | rfl | cases fits flat
    | shared =>
      cases starts
      exact ident_agree.bind fun _ type _ => variableOf_agree lax true type pos
    | noreturn | sizeof => cases starts
  | glyph glyph =>
    -- Braces are statements of their own.
    cases glyph with
    | leftCurly | rightCurly =>
      cases starts
      exact .answer trivial
    | _ => cases starts
  | ident word =>
    -- Any other word is a label, a mnemonic, a call or a type.
    cases starts
    exact wordStatement_agree lax cpu word pos
  | _ => cases starts

/-- A statement ends alike, and if it is one, then it has a token. -/
theorem statement_agree (cpu : Cpu) :
    C.Agree bound (fun n _ => 0 < n) (statement cpu) (statement cpu) := by
  -- By what both runs see: nothing, a token of the line, or the end of the line.
  intro n c c' joined few
  cases C.sight joined with
  | nothing ended ended' refused =>
    rw [statement_of_none cpu ended, statement_of_none cpu ended', ← C.last joined]
    exact .error refused
  | @token token d d' next next' unread _ behind =>
    rw [statement_of_next? cpu next, statement_of_next? cpu next']
    -- A token that starts a statement is read, and that makes one token at least. The end of a line
    -- starts none.
    cases starts : statementFrom cpu token.pos token.lexeme with
    | none => exact .error unread
    | some further =>
      rcases behind with ⟨⟨m, fewer, later⟩, closed⟩ | ⟨-, ends⟩
      · have agree : C.Agree (m + 1) (fun more _ => 0 < n - m + more) further further :=
          (statementFrom_agree lax starts closed).mono fun _ _ _ => by omega
        exact (agree later (Nat.lt_succ_self m)).behind (n - m) (by omega)
      · rw [ends] at starts
        cases starts

end Statements

end Parse

end CrossAsm

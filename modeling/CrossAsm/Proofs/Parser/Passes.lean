import CrossAsm.Proofs.Parser.Recovery

/-! Parsing ends by itself. The parser bounds its loops by the number of unread tokens; here they
are run without a bound, and come to the same. A round of a loop inside a statement reads a token or
fails, and a pass over a statement reads one whether the statement succeeds or fails, since an error
takes the rest of its line with it. So all tokens are read, and no line has two errors. -/

namespace CrossAsm

open Token (fromStatement fromLineEnd)
open Outcome (gather)

namespace Parse

open Coupling (Any Ends Round)

/-- An expression may have expressions in parentheses, at any depth. -/
theorem expression_eq : expression = binary (unary (primary expression)) operatorLevels := by
  funext cursor
  -- Both are read with at most as many parentheses open as there are tokens.
  have inner : (alone cursor.rest).Agree cursor.rest.length (fun n _ => 0 < n)
      (expressionWithin cursor.rest.length) expression := by
    intro n c c' joined few
    have fewer := (alone cursor.rest).few joined
    have deep : (alone cursor.rest).Agree (n + 1) (fun read _ => 0 < read)
        (expressionWithin cursor.rest.length) (expressionWithin (c'.rest.length + 1)) :=
      expressionWithin_agree few (by omega)
    exact deep joined (Nat.lt_succ_self n)
  show binary (unary (primary (expressionWithin cursor.rest.length))) operatorLevels cursor = _
  exact eq_of_agree (binary_agree (unary_agree (primary_agree inner.any)) operatorLevels)

/-! ### Loops without a bound -/

section Loops

variable {α β : Type} {step : α → Parse (α ⊕ β)} {a : α} {cursor : Cursor}
  {result result' : EStateM.Result Error Cursor β}

/-- What a loop comes to, round after round, until one ends it or fails. -/
inductive Repeats (step : α → Parse (α ⊕ β)) :
    α → Cursor → EStateM.Result Error Cursor β → Prop
  | next {a a' : α} {cursor after : Cursor} {result : EStateM.Result Error Cursor β}
    (ran : step a cursor = .ok (.inl a') after) (others : Repeats step a' after result) :
    Repeats step a cursor result
  | last {a : α} {b : β} {cursor after : Cursor} (ran : step a cursor = .ok (.inr b) after) :
    Repeats step a cursor (.ok b after)
  | failure {a : α} {e : Error} {cursor after : Cursor} (ran : step a cursor = .error e after) :
    Repeats step a cursor (.error e after)

/-- A loop comes to one result only. -/
theorem Repeats.unique (first : Repeats step a cursor result)
    (second : Repeats step a cursor result') : result = result' := by
  -- By induction on the rounds of the first run: those of the second run are the same.
  induction first with
  | next ran _ ih =>
    -- The first run goes on, and so does the second.
    cases second with
    | next ran' others =>
      cases ran.symm.trans ran'
      exact ih others
    | last ran' => cases ran.symm.trans ran'
    | failure ran' => cases ran.symm.trans ran'
  | last ran =>
    -- The first run ends, and the second ends with the same answer.
    cases second with
    | next ran' => cases ran.symm.trans ran'
    | last ran' =>
      cases ran.symm.trans ran'
      rfl
    | failure ran' => cases ran.symm.trans ran'
  | failure ran =>
    -- The first run fails, and the second fails alike.
    cases second with
    | next ran' => cases ran.symm.trans ran'
    | last ran' => cases ran.symm.trans ran'
    | failure ran' =>
      cases ran.symm.trans ran'
      rfl

/-- Rounds that go on leave fewer tokens, so that a bound by their number is never reached. -/
theorem repeats_iterate
    (reads : ∀ ⦃a cursor a' after⦄, step a cursor = .ok (.inl a') after → after.Behind cursor)
    {rounds : Nat} (enough : cursor.rest.length < rounds) :
    Repeats step a cursor (iterate step rounds a cursor) := by
  -- By induction on the bound, which the tokens left stay below.
  induction rounds generalizing a cursor with
  | zero => omega
  | succ rounds ih =>
    show Repeats step a cursor (EStateM.bind (step a) _ cursor)
    unfold EStateM.bind
    cases ran : step a cursor with
    | error e after => exact .failure ran
    | ok found after =>
      cases found with
      | inr b => exact .last ran
      | inl a' =>
        have fewer := (reads ran).2
        exact .next ran (ih (by omega))

/-- A loop whose rounds read on comes to what it comes to without a bound. -/
theorem repeats_iff
    (reads : ∀ ⦃a cursor a' after⦄, step a cursor = .ok (.inl a') after → after.Behind cursor) :
    Repeats step a cursor result ↔ loop step a cursor = result := by
  -- With as many rounds as there are tokens the loop ends, and it ends in one way.
  have runs : Repeats step a cursor (loop step a cursor) :=
    repeats_iterate reads (Nat.lt_succ_self _)
  exact ⟨fun other => runs.unique other, fun same => same ▸ runs⟩

end Loops

/-! ### The loops inside statements -/

/-- What the rules of statements repeat. -/
inductive InnerLoop
  /-- Operators of one level over the tighter ones. -/
  | operators (level : List (Glyph × BinaryOp)) (tighter : List (List (Glyph × BinaryOp)))
  /-- Prefix operators. -/
  | unaryOps
  /-- The members of a dotted name. -/
  | dottedName
  /-- The parameters of a function. -/
  | parameters
  /-- The arguments of a call. -/
  | arguments
  /-- The words of a test. -/
  | testWords
  /-- The values of an initializer. -/
  | values
  /-- The fields of a struct. -/
  | fields
  /-- The members of an enum. -/
  | members

namespace InnerLoop

/-- What is carried from one round to the next. -/
abbrev State : InnerLoop → Type
  | operators .. => Expr
  | unaryOps => List UnaryOp
  | dottedName => String
  | parameters => List String
  | arguments => List Expr
  | testWords => List (String × Pos)
  | values => List Expr
  | fields => List Field
  | members => List (String × Int64) × Int64

/-- What comes of the last round. -/
abbrev Product : InnerLoop → Type
  | operators .. | unaryOps => Expr
  | dottedName => String
  | parameters => List String
  | arguments => List Expr
  | testWords => List (String × Pos)
  | values => List Expr
  | fields => List Field
  | members => List (String × Int64)

/-- One round. -/
def step : (l : InnerLoop) → l.State → Parse (l.State ⊕ l.Product)
  | operators level tighter => chainStep level (binary (unary (primary expression)) tighter)
  | unaryOps => unaryStep (primary expression)
  | dottedName => nameStep
  | parameters => itemStep ident .comma
  | arguments => itemStep expr .comma
  | testWords => wordStep
  | values => valueStep
  | fields => fieldStep
  | members => memberStep

/-- All rounds from a start. -/
def run (l : InnerLoop) (start : l.State) : Parse l.Product :=
  loop l.step start

/-- Whether a round only starts if the right token comes next, so that the loop ends where it
stands. -/
def looksFirst : InnerLoop → Bool
  | operators .. | dottedName | testWords => true
  | unaryOps | parameters | arguments | values | fields | members => false

/-- The grammar has its loops in these places: a rule that repeats something is one of them, or
what stands in front of it and behind it is read once. Expressions in parentheses are expressions
again. -/
structure Placed : Prop where
  /-- Levels of operators over prefix operators over primaries. -/
  expression_eq : expression = binary (unary (primary expression)) operatorLevels
  /-- A level of operators. -/
  operators_eq : ∀ level tighter, binary (unary (primary expression)) (level :: tighter) = do
    (operators level tighter).run (← binary (unary (primary expression)) tighter)
  /-- Prefix operators. -/
  unaryOps_eq : unary (primary expression) = unaryOps.run []
  /-- A dotted name. -/
  dottedName_eq : nameFrom = dottedName.run
  /-- Parameters. -/
  parameters_eq : sepBy ident .comma .rightParen = do
    if ← isAtGlyph .rightParen then return [] else parameters.run []
  /-- Arguments. -/
  arguments_eq : sepBy expr .comma .rightParen = do
    if ← isAtGlyph .rightParen then return [] else arguments.run []
  /-- A test. -/
  testWords_eq : test = do
    let _ ← expect .leftParen
    let words ← testWords.run []
    let close ← expect .rightParen
    match testOfWords words close with
    | .ok test => return test
    | .error e => throw e
  /-- Values in braces. -/
  values_eq : bracedValues = values.run []
  /-- Fields. -/
  fields_eq : structFields = fields.run []
  /-- Members, the first of which counts from zero. -/
  members_eq : enumMembers = members.run ([], 0)

/-- The loops are where the grammar has them. -/
theorem placed : Placed where
  expression_eq := Parse.expression_eq
  operators_eq := fun _ _ => rfl
  unaryOps_eq := rfl
  dottedName_eq := rfl
  parameters_eq := rfl
  arguments_eq := rfl
  testWords_eq := rfl
  values_eq := rfl
  fields_eq := rfl
  members_eq := rfl

section Rounds

variable {α β : Type} {C : Coupling} {bound n : Nat} {looks : Bool} {found : α ⊕ β}

/-- What is told of a round: it reads a token, or the loop looked first and is over. -/
def Onward (looks : Bool) (n : Nat) (found : α ⊕ β) : Prop :=
  0 < n ∨ looks = true ∧ found.isRight = true

/-- Where a loop looks first, rounds that go on read. -/
theorem onward_of_looks (first : looks = true) (took : Round Any n found) :
    Onward looks n found := by
  -- A round that only looked is one that stops.
  cases found with
  | inl s => exact .inl took
  | inr p => exact .inr ⟨first, rfl⟩

/-- Elsewhere all rounds read. -/
theorem onward_of_positive (took : Round (fun n _ => 0 < n) n found) : Onward looks n found := by
  -- A round that goes on has read a token or more.
  cases found with
  | inl s => exact .inl took
  | inr p => exact .inl (Nat.zero_add n ▸ took 0)

/-- Each round of a loop reads a token, or the loop is over. -/
theorem step_agree (lax : C.Lax) (across : ¬ C.oneLine) (l : InnerLoop) (s : l.State) :
    C.Agree (bound + 1) (Onward l.looksFirst) (l.step s) (l.step s) := by
  -- What a round of each loop reads is known from the rule that it belongs to. Expressions inside
  -- are read with every bound, and so they may stand for their own parts here.
  have atom : C.Agree (bound + 1) (fun n _ => 0 < n) (primary expression) (primary expression) :=
    primary_agree expression_agree.any
  cases l with
  | operators level tighter =>
    have operand := (binary_agree (unary_agree atom) tighter).any
    exact (chainStep_agree level operand s).mono fun _ _ => onward_of_looks rfl
  | unaryOps => exact (unaryStep_agree atom s).mono fun _ _ => onward_of_positive
  | dottedName => exact (nameStep_agree s).mono fun _ _ => onward_of_looks rfl
  | parameters => exact (itemStep_agree ident_agree .comma s).mono fun _ _ => onward_of_positive
  | arguments =>
    exact (itemStep_agree (expr_agree lax) .comma s).mono fun _ _ => onward_of_positive
  | testWords => exact (wordStep_agree s).mono fun _ _ => onward_of_looks rfl
  | values => exact (valueStep_agree lax across s).mono fun _ _ => onward_of_positive
  | fields => exact (fieldStep_agree lax across s).mono fun _ _ => onward_of_positive
  | members => exact (memberStep_agree lax across s).mono fun _ _ => onward_of_positive

end Rounds

/-- A round that succeeds stands behind a token that it read, or it ended a loop that looked first
where it stands. -/
theorem step_reads {l : InnerLoop} {s : l.State} {cursor after : Cursor}
    {found : l.State ⊕ l.Product} (ran : l.step s cursor = .ok found after) :
    after.Behind cursor ∨
      l.looksFirst = true ∧ found.isRight = true ∧ after.rest = cursor.rest := by
  obtain ⟨read, split, reads⟩ := read_of_agree (l.step_agree alone_lax alone_across s) ran
  cases read with
  | nil =>
    -- Nothing was read.
    rcases reads with positive | ⟨looks, done⟩
    · exact absurd positive (Nat.lt_irrefl 0)
    · exact .inr ⟨looks, done, split.symm⟩
  | cons token read =>
    refine .inl ⟨⟨_, split.symm⟩, ?_⟩
    rw [split, List.length_append, List.length_cons]
    omega

/-- A loop comes to what it comes to without a bound. -/
theorem repeats_iff_run {l : InnerLoop} {s : l.State} {cursor : Cursor}
    {result : EStateM.Result Error Cursor l.Product} :
    Repeats l.step s cursor result ↔ l.run s cursor = result := by
  -- A round that is not the last one has read a token.
  refine repeats_iff fun s cursor s' after ran => ?_
  rcases step_reads ran with behind | ⟨-, done, -⟩
  · exact behind
  · cases done

end InnerLoop

end Parse

/-! ### Passes over statements -/

/-- One pass over a statement. -/
structure Pass where
  /-- Where the statement starts. -/
  start : Cursor
  /-- The items of the statement, or its error. -/
  told : Except Error (List Item)
  /-- Where the next one is looked for. -/
  left : Cursor

/-- Passes over statements, with separators in front of them, until no token is left to see: as many
as it takes. -/
inductive Passes (cpu : Cpu) : Cursor → List Pass → Cursor → Prop
  /-- Nothing but separators and comments is left. -/
  | ended {cursor : Cursor} (none : (cursor.skip Lexeme.isSeparator).peek? = none) :
    Passes cpu cursor [] (cursor.skip Lexeme.isSeparator)
  /-- A statement is read. -/
  | item {cursor after last : Cursor} {token : Token} {items : List Item} {others : List Pass}
    (some : (cursor.skip Lexeme.isSeparator).peek? = some token)
    (ran : Parse.statement cpu (cursor.skip Lexeme.isSeparator) = .ok items after)
    (more : Passes cpu after others last) :
    Passes cpu cursor (⟨cursor.skip Lexeme.isSeparator, .ok items, after⟩ :: others) last
  /-- A statement fails, and the rest of the line is left out. -/
  | failure {cursor after last : Cursor} {token : Token} {e : Error} {others : List Pass}
    (some : (cursor.skip Lexeme.isSeparator).peek? = some token)
    (ran : Parse.statement cpu (cursor.skip Lexeme.isSeparator) = .error e after)
    (more : Passes cpu after.skipLine others last) :
    Passes cpu cursor (⟨cursor.skip Lexeme.isSeparator, .error e, after.skipLine⟩ :: others) last

variable {cpu : Cpu} {cursor last : Cursor} {passes : List Pass}

/-- Separators are read past from the front. -/
theorem Cursor.skip_suffix (cursor : Cursor) :
    (cursor.skip Lexeme.isSeparator).rest <:+ cursor.rest := by
  -- Dropping from the front leaves an end of the list.
  rw [Cursor.skip_rest]
  exact List.dropWhile_suffix _

/-- Where no token is left to see, none is left behind the separators. -/
theorem Cursor.skip_of_peek?_none (none : (cursor.skip Lexeme.isSeparator).peek? = none) :
    cursor.skip Lexeme.isSeparator = ⟨[], (cursor.skip Lexeme.isSeparator).last⟩ := by
  -- What is left behind the separators starts a statement.
  have starts := Cursor.skip_rest cursor
  generalize cursor.skip Lexeme.isSeparator = start at none starts ⊢
  obtain ⟨_ | ⟨first, rest⟩, last⟩ := start
  · rfl
  · -- A statement starts with a token that is seen.
    rw [Cursor.peek?, Cursor.next?_cons (Token.of_fromStatement starts.symm).1] at none
    cases none

/-- Where a token is left to see, there is one. -/
theorem Cursor.rest_of_peek? {token : Token} (some : cursor.peek? = some token) :
    ∃ first rest, cursor.rest = first :: rest := by
  -- From no tokens none is seen.
  refine List.exists_cons_of_ne_nil fun none => ?_
  rw [Cursor.peek?, Cursor.next?, none] at some
  cases some

/-- An error is followed by the end of its line, or by nothing. -/
theorem Token.head?_fromLineEnd (tokens : List Token) :
    ∀ token ∈ (fromLineEnd tokens).head?, token.lexeme = .newline := by
  -- Everything in front of the end of the line is dropped.
  intro token head
  have ends := List.head?_dropWhile_not (fun token : Token => token.lexeme ≠ .newline) tokens
  rw [show (tokens.dropWhile _).head? = some token from head] at ends
  simpa using ends

/-- A pass over a statement leaves fewer tokens, whether it succeeds or fails. -/
theorem Parse.statement_behind_skip (cpu : Cpu) {token : Token}
    (some : (cursor.skip Lexeme.isSeparator).peek? = some token) :
    match statement cpu (cursor.skip Lexeme.isSeparator) with
    | .ok _ after => after.Behind (cursor.skip Lexeme.isSeparator)
    | .error _ after => after.skipLine.Behind (cursor.skip Lexeme.isSeparator) := by
  -- Behind the separators there is no end of a line, so that the statement has a token to read.
  obtain ⟨first, rest, split⟩ := Cursor.rest_of_peek? some
  have next := (Cursor.skip_rest cursor).symm.trans split
  exact statement_behind cpu split (Token.ne_newline_of_fromStatement next)

/-- With a bound above the number of tokens parsing tells what passes without a bound tell, and
those come to an end. -/
theorem Cursor.passes_statements {rounds : Nat} (enough : cursor.rest.length < rounds) :
    ∃ passes last, Passes cpu cursor passes ⟨[], last⟩ ∧
      cursor.statements cpu rounds = gather (passes.map (·.told)) := by
  -- By induction on the bound: each pass leaves fewer tokens.
  induction rounds generalizing cursor with
  | zero => omega
  | succ rounds ih =>
    have fewer := (Cursor.skip_suffix cursor).length_le
    unfold Cursor.statements
    cases seen : (cursor.skip Lexeme.isSeparator).peek? with
    | none =>
      -- No statement is left to read.
      have ended : Passes cpu cursor [] (cursor.skip Lexeme.isSeparator) := .ended seen
      have all := Cursor.skip_of_peek?_none seen
      refine ⟨[], (cursor.skip Lexeme.isSeparator).last, all ▸ ended, ?_⟩
      simp [seen, gather]
    | some token =>
      have behind := Parse.statement_behind_skip cpu seen
      cases ran : Parse.statement cpu (cursor.skip Lexeme.isSeparator) with
      | ok items after =>
        -- A statement is read, and the rest is told from behind it.
        rw [ran] at behind
        have left : after.rest.length < rounds := Nat.lt_of_lt_of_le behind.2 (by omega)
        obtain ⟨others, last, more, told⟩ := ih left
        refine ⟨_, last, .item seen ran more, ?_⟩
        simp [seen, ran, told, gather]
      | error e after =>
        -- A statement fails, and the rest is told from behind its line.
        rw [ran] at behind
        have left : after.skipLine.rest.length < rounds := Nat.lt_of_lt_of_le behind.2 (by omega)
        obtain ⟨others, last, more, told⟩ := ih left
        refine ⟨_, last, .failure seen ran more, ?_⟩
        simp [seen, ran, told, gather]

/-- Each pass leaves fewer tokens, and a line ends behind one that fails. -/
theorem Passes.behind (all : Passes cpu cursor passes last) {pass : Pass} (mem : pass ∈ passes) :
    pass.left.Behind pass.start ∧
      ∀ e, pass.told = .error e → ∀ token ∈ pass.left.rest.head?, token.lexeme = .newline := by
  -- By induction on the passes: the pass is the first one or one of the others.
  induction all with
  | ended => cases mem
  | item some ran _ ih =>
    rcases List.mem_cons.1 mem with rfl | other
    · have behind := Parse.statement_behind_skip cpu some
      rw [ran] at behind
      refine ⟨behind, fun _ failed => ?_⟩
      -- A statement that is read has no error.
      cases failed
    · exact ih other
  | @failure _ after _ _ _ _ some ran _ ih =>
    rcases List.mem_cons.1 mem with rfl | other
    · have behind := Parse.statement_behind_skip cpu some
      rw [ran] at behind
      refine ⟨behind, fun _ _ => ?_⟩
      rw [Cursor.skipLine_rest]
      exact Token.head?_fromLineEnd after.rest
    · exact ih other

/-! ### Errors and lines -/

namespace Token

variable {early tokens : List Token}

/-- The number of ends of lines among tokens. -/
def newlines (tokens : List Token) : Nat :=
  tokens.countP fun token => token.lexeme = .newline

/-- The number of lines that tokens are on. -/
def lines (tokens : List Token) : Nat :=
  if tokens = [] then 0 else newlines tokens + 1

/-- Fewer tokens have fewer ends of lines. -/
theorem newlines_le (part : early <:+ tokens) : newlines early ≤ newlines tokens :=
  part.sublist.countP_le

/-- Each line but one has an end. -/
theorem lines_le (tokens : List Token) : lines tokens ≤ newlines tokens + 1 := by
  -- Without tokens there is no line.
  unfold lines
  split
  · exact Nat.zero_le _
  · exact Nat.le_refl _

/-- From the end of a line on there are as many lines with statements as there are ends of lines. -/
theorem lines_fromStatement (ends : ∀ token ∈ tokens.head?, token.lexeme = .newline) :
    lines (fromStatement tokens) ≤ newlines tokens := by
  -- Where a line ends, the next one begins.
  cases tokens with
  | nil => exact Nat.le_refl 0
  | cons eol rest =>
    -- The end of the line is read past as a separator, and counts for the line behind it.
    have newline : eol.lexeme = .newline := ends eol rfl
    have skipped : fromStatement (eol :: rest) = fromStatement rest :=
      List.dropWhile_cons_of_pos (by simp [newline, Lexeme.isSeparator])
    calc lines (fromStatement (eol :: rest))
        = lines (fromStatement rest) := by rw [skipped]
      _ ≤ newlines (fromStatement rest) + 1 := lines_le _
      _ ≤ newlines rest + 1 := Nat.succ_le_succ (newlines_le (List.dropWhile_suffix _))
      _ = newlines (eol :: rest) := by simp [newlines, newline]

/-- Where a statement starts there is a line. -/
theorem lines_of_peek? {token : Token} (some : cursor.peek? = some token) :
    lines cursor.rest = newlines cursor.rest + 1 := by
  -- The tokens are not all read.
  obtain ⟨first, rest, split⟩ := Cursor.rest_of_peek? some
  rw [lines, if_neg (by simp [split])]

end Token

/-- Passes tell no more errors than there are lines with statements. -/
theorem Passes.errors_le (all : Passes cpu cursor passes last) :
    (gather (passes.map (·.told))).2.length ≤
      Token.lines (cursor.skip Lexeme.isSeparator).rest := by
  -- By induction on the passes: one that fails has a line of its own, which the others lack.
  induction all with
  | ended => exact Nat.zero_le _
  | @item cursor after _ _ _ others some ran _ ih =>
    -- A statement that is read adds no error.
    have behind := Parse.statement_behind_skip cpu some
    rw [ran] at behind
    have part := (Cursor.skip_suffix after).trans behind.1
    calc (gather (others.map (·.told))).2.length
        ≤ Token.lines (after.skip Lexeme.isSeparator).rest := ih
      _ ≤ Token.newlines (after.skip Lexeme.isSeparator).rest + 1 := Token.lines_le _
      _ ≤ Token.newlines (cursor.skip Lexeme.isSeparator).rest + 1 :=
        Nat.succ_le_succ (Token.newlines_le part)
      _ = Token.lines (cursor.skip Lexeme.isSeparator).rest := (Token.lines_of_peek? some).symm
  | @failure cursor after _ _ _ others some ran _ ih =>
    -- One that fails adds an error, and takes the rest of its line.
    have behind := Parse.statement_behind_skip cpu some
    rw [ran] at behind
    have ends := Token.head?_fromLineEnd after.rest
    rw [← Cursor.skipLine_rest] at ends
    rw [Cursor.skip_rest] at ih
    calc (gather (others.map (·.told))).2.length + 1
        ≤ Token.lines (fromStatement after.skipLine.rest) + 1 := Nat.succ_le_succ ih
      _ ≤ Token.newlines after.skipLine.rest + 1 :=
        Nat.succ_le_succ (Token.lines_fromStatement ends)
      _ ≤ Token.newlines (cursor.skip Lexeme.isSeparator).rest + 1 :=
        Nat.succ_le_succ (Token.newlines_le behind.1)
      _ = Token.lines (cursor.skip Lexeme.isSeparator).rest := (Token.lines_of_peek? some).symm

/-- Parsing ends by itself, with everything read, and tells at most one error for each line. It is
made of passes over statements, as many as it takes: each leaves fewer tokens, whether its statement
is read or fails, one that fails goes on to the end of a line, and no token is left behind the last
one. Inside statements each round of a loop reads a token or fails, but for the look that ends a
loop where it stands; and each loop comes to what it comes to when nothing bounds its rounds. So
there is at most one error more than there are ends of lines. -/
theorem parse_finishes (cpu : Cpu) (tokens : List Token) :
    (∃ passes last, Passes cpu ⟨tokens, {}⟩ passes ⟨[], last⟩ ∧
      parse cpu tokens = gather (passes.map (·.told)) ∧
      ∀ pass ∈ passes, pass.left.Behind pass.start ∧
        ∀ e, pass.told = .error e → ∀ token ∈ pass.left.rest.head?, token.lexeme = .newline) ∧
    (Parse.InnerLoop.Placed ∧ ∀ (l : Parse.InnerLoop) (s : l.State) (cursor : Cursor),
      (∀ found after, l.step s cursor = .ok found after → after.Behind cursor ∨
        l.looksFirst = true ∧ found.isRight = true ∧ after.rest = cursor.rest) ∧
      ∀ result, Parse.Repeats l.step s cursor result ↔ l.run s cursor = result) ∧
    (parse cpu tokens).2.length ≤ Token.newlines tokens + 1 := by
  -- The passes are made with a bound that is never reached, and their errors counted by lines.
  have enough : (Cursor.rest ⟨tokens, {}⟩).length < tokens.length + 1 := Nat.lt_succ_self _
  obtain ⟨passes, last, all, told⟩ := Cursor.passes_statements enough
  refine ⟨⟨passes, last, all, told, fun pass mem => all.behind mem⟩, ?_, ?_⟩
  · refine ⟨Parse.InnerLoop.placed, fun l s cursor => ⟨fun found after ran => ?_, fun result => ?_⟩⟩
    · exact Parse.InnerLoop.step_reads ran
    · exact Parse.InnerLoop.repeats_iff_run
  · have part := Cursor.skip_suffix ⟨tokens, {}⟩
    calc (parse cpu tokens).2.length
        = (gather (passes.map (·.told))).2.length := congrArg (fun parsed => parsed.2.length) told
      _ ≤ Token.lines (Cursor.skip Lexeme.isSeparator ⟨tokens, {}⟩).rest := all.errors_le
      _ ≤ Token.newlines (Cursor.skip Lexeme.isSeparator ⟨tokens, {}⟩).rest + 1 :=
        Token.lines_le _
      _ ≤ Token.newlines tokens + 1 := Nat.succ_le_succ (Token.newlines_le part)

/-- A line that has no end may have an error as well. -/
example : (parse .nmos [⟨.glyph .rightParen, {}⟩, ⟨.newline, {}⟩,
    ⟨.glyph .rightParen, { row := 1 }⟩]).2.length = 2 := by
  decide +kernel

end CrossAsm

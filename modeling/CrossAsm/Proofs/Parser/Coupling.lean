import CrossAsm.Proofs.Parser.Grammar

/-! Two runs of the parser side by side. Cursors that stand in a relation see the same tokens, and
what a relation has to keep while a token is read is said once. Each rule of the grammar keeps it
then, here those of expressions: the two runs give the same answer in front of related cursors, or
the same error. Every round of a loop that goes on reads a token, so that no run ends for want of
rounds. -/

namespace CrossAsm

/-- Whether a lexeme starts something that may go on over ends of lines. -/
def Lexeme.spansLines : Lexeme → Bool
  | .glyph .leftCurly | .keyword .struct | .keyword .enum => true
  | _ => false

namespace Parse

variable {α β : Type}

/-- What two cursors see: nothing more, or the same token, behind which they stand in the relation
with fewer tokens ahead. The end of a line that is not read over may be refused behind it as well as
in front of it. -/
inductive Sight (joined : Nat → Cursor → Cursor → Prop) (fails : Error → Cursor → Cursor → Prop)
    (oneLine flat : Prop) (n : Nat) (c c' : Cursor) : Prop
  | nothing (ended : c.next? = none) (ended' : c'.next? = none)
    (refused : fails (.unexpectedEnd c.last) c c')
  | token {token : Token} {d d' : Cursor} (next : c.next? = some (token, d))
    (next' : c'.next? = some (token, d'))
    (unread : fails (.unexpectedToken token.pos token.lexeme.render) c c')
    (read : fails (.unexpectedToken token.pos token.lexeme.render) d d')
    (behind : (∃ m < n, joined m d d') ∧ (flat → token.lexeme.spansLines = false) ∨
      oneLine ∧ token.lexeme = .newline)

/-- A relation between the cursors of two runs that reading keeps. -/
structure Coupling where
  /-- Cursors that belong together, and the number of tokens ahead of them. -/
  joined : Nat → Cursor → Cursor → Prop
  /-- Where two runs may fail with an error. -/
  fails : Error → Cursor → Cursor → Prop
  /-- Ends of lines are not read over. -/
  oneLine : Prop
  /-- Nothing ahead leads over the end of a line. -/
  flat : Prop
  /-- The same tokens are ahead. -/
  sight : ∀ {n : Nat} {c c' : Cursor}, joined n c c' → Sight joined fails oneLine flat n c c'
  /-- The same token was read last. -/
  last : ∀ {n : Nat} {c c' : Cursor}, joined n c c' → c.last = c'.last
  /-- Where ends of lines are read over, tokens of a class are read past. -/
  skips : ¬ oneLine → ∀ {n : Nat} {c c' : Cursor} (p : Lexeme → Bool), joined n c c' →
    ∃ m ≤ n, joined m (c.skip p) (c'.skip p)
  /-- There are no more tokens ahead than unread ones. -/
  few : ∀ {n : Nat} {c c' : Cursor}, joined n c c' → n ≤ c.rest.length ∧ n ≤ c'.rest.length

namespace Coupling

/-- Two runs that end alike: with the same answer, of which something is told by the number of
tokens that were read, or with the same error. -/
inductive Ends (C : Coupling) (n : Nat) (told : Nat → α → Prop) :
    EStateM.Result Error Cursor α → EStateM.Result Error Cursor α → Prop
  | ok {a : α} {m read : Nat} {d d' : Cursor} (joined : C.joined m d d') (count : n = read + m)
    (holds : told read a) : Ends C n told (.ok a d) (.ok a d')
  | error {e : Error} {d d' : Cursor} (fails : C.fails e d d') :
    Ends C n told (.error e d) (.error e d')

/-- Two steps that end alike where there are fewer tokens ahead than a bound. -/
def Agree (C : Coupling) (bound : Nat) (told : Nat → α → Prop) (p p' : Parse α) : Prop :=
  ∀ ⦃n : Nat⦄ ⦃c c' : Cursor⦄, C.joined n c c' → n < bound → C.Ends n told (p c) (p' c')

/-- Two runs may fail anywhere, and nothing leads over ends of lines that are not read over. -/
structure Lax (C : Coupling) : Prop where
  /-- Cursors that belong together may fail with any error. -/
  anywhere : ∀ ⦃n : Nat⦄ ⦃c c' : Cursor⦄ (e : Error), C.joined n c c' → C.fails e c c'
  /-- Ends of lines are read over, or nothing leads over them. -/
  flat : C.oneLine → C.flat

/-- Nothing is told of an answer. -/
def Any (_ : Nat) (_ : α) : Prop :=
  True

/-- What is told of a round of a loop of which something is told: one that goes on reads a token,
and behind one that ends it that holds, whatever was read in the rounds before. -/
def Round (told : Nat → β → Prop) (n : Nat) : α ⊕ β → Prop
  | .inl _ => 0 < n
  | .inr b => ∀ before, told (before + n) b

variable {C : Coupling} {bound n m : Nat} {told wider : Nat → α → Prop} {whole : Nat → β → Prop}

/-- Less may be told of an answer. -/
theorem Ends.mono {x x' : EStateM.Result Error Cursor α} (ends : C.Ends n told x x')
    (wide : ∀ n a, told n a → wider n a) : C.Ends n wider x x' := by
  -- The answer is the same, and errors tell nothing.
  cases ends with
  | ok joined count holds => exact .ok joined count (wide _ _ holds)
  | error fails => exact .error fails

/-- An answer in front of fewer tokens. -/
theorem Ends.ok_of_le {a : α} {d d' : Cursor} (joined : C.joined m d d') (fewer : m ≤ n)
    (holds : told (n - m) a) : C.Ends n told (.ok a d) (.ok a d') :=
  .ok joined (Nat.sub_add_cancel fewer).symm holds

/-- What is read behind a number of tokens was read behind those. -/
theorem Ends.behind (read : Nat) {x x' : EStateM.Result Error Cursor α}
    (ends : C.Ends m (fun more => told (read + more)) x x') (count : n = read + m) :
    C.Ends n told x x' := by
  -- The numbers of tokens are added up.
  cases ends with
  | ok joined more holds => exact .ok joined (by omega) holds
  | error fails => exact .error fails

namespace Agree

variable {p p' : Parse α} {k k' : α → Parse β}

/-- Less may be told of an answer. -/
theorem mono (agree : C.Agree bound told p p') (wide : ∀ n a, told n a → wider n a) :
    C.Agree bound wider p p' :=
  fun _ _ _ joined few => (agree joined few).mono wide

/-- Nothing need be told. -/
theorem any (agree : C.Agree bound told p p') : C.Agree bound Any p p' :=
  agree.mono fun _ _ _ => trivial

/-- An answer. -/
theorem answer {a : α} (holds : told 0 a) : C.Agree bound told (Pure.pure a) (Pure.pure a) :=
  fun n _ _ joined _ => .ok joined (Nat.zero_add n).symm holds

/-- A failure. -/
theorem failure (lax : C.Lax) (e : Error) : C.Agree bound told (throw e) (throw e) :=
  fun _ _ _ joined _ => .error (lax.anywhere e joined)

/-- A failure with the end of input. -/
theorem failAtEnd (lax : C.Lax) : C.Agree bound told Parse.failAtEnd Parse.failAtEnd := by
  -- The error names the last token that was read, which is the same.
  intro n c c' joined _
  show C.Ends n told (.error (.unexpectedEnd c.last) c) (.error (.unexpectedEnd c'.last) c')
  rw [← C.last joined]
  exact .error (lax.anywhere _ joined)

/-- Steps one after another. -/
theorem bind (first : C.Agree bound told p p')
    (rest : ∀ n a, told n a → C.Agree bound (fun more b => whole (n + more) b) (k a) (k' a)) :
    C.Agree bound whole (p >>= k) (p' >>= k') := by
  -- The first steps end alike, with an answer or an error.
  intro n c c' joined few
  have ends := first joined few
  show C.Ends n whole (EStateM.bind p k c) (EStateM.bind p' k' c')
  unfold EStateM.bind
  revert ends
  generalize p c = x
  generalize p' c' = x'
  rintro (⟨left, rfl, holds⟩ | fails)
  · -- The second step goes on with the tokens that the first one left.
    have later := rest _ _ holds left (by omega)
    exact later.behind _ rfl
  · exact .error fails

/-- Steps one after another, with nothing told of the answers. -/
theorem andThen (first : C.Agree bound told p p') (rest : ∀ a, C.Agree bound Any (k a) (k' a)) :
    C.Agree bound Any (p >>= k) (p' >>= k') :=
  first.bind fun _ a _ => rest a

end Agree

end Coupling

open Coupling (Any Ends Round)

variable {C : Coupling} {bound : Nat}

/-! ### Tokens -/

/-- The upcoming token is the same. -/
theorem peek?_agree : C.Agree bound Any Parse.peek? Parse.peek? := by
  -- Both runs see the same, a token or nothing.
  intro n c c' joined _
  have seen : c.peek? = c'.peek? := by
    unfold Cursor.peek?
    cases C.sight joined with
    | nothing ended ended' => rw [ended, ended']
    | token next next' =>
      rw [next, next']
      rfl
  show C.Ends n Any (.ok c.peek? c) (.ok c'.peek? c')
  rw [seen]
  exact .ok joined (Nat.zero_add n).symm trivial

/-- A token of a class that has no ends of lines may be read. -/
theorem accept?_agree {select : Lexeme → Option α} (other : C.oneLine → select .newline = none) :
    C.Agree bound (fun n found => found.isSome = true → 0 < n)
      (Parse.accept? select) (Parse.accept? select) := by
  intro n c c' joined _
  rw [accept?_eq, accept?_eq]
  have stays : C.Ends n (fun n (found : Option (α × Pos)) => found.isSome = true → 0 < n)
      (.ok none c) (.ok none c') := .ok joined (Nat.zero_add n).symm nofun
  -- Both runs see the same token, so both read it or neither does.
  cases C.sight joined with
  | nothing ended ended' =>
    rw [ended, ended']
    exact stays
  | @token token d d' next next' _ _ behind =>
    simp only [next, next']
    rcases behind with ⟨⟨m, fewer, later⟩, -⟩ | ⟨line, ends⟩
    · cases select token.lexeme with
      | none => exact stays
      | some value =>
        exact .ok_of_le later (by omega) fun _ => by omega
    · rw [ends, other line]
      exact stays

/-- Where nothing leads over the end of a line, nothing is read of a class whose tokens do. -/
theorem accept?_absent {select : Lexeme → Option α} (flat : C.flat)
    (none : ∀ lexeme : Lexeme, lexeme.spansLines = false → select lexeme = none) :
    C.Agree bound (fun _ found => found = Option.none)
      (Parse.accept? select) (Parse.accept? select) := by
  intro n c c' joined _
  rw [accept?_eq, accept?_eq]
  have stays : C.Ends n (fun _ (found : Option (α × Pos)) => found = Option.none)
      (.ok Option.none c) (.ok Option.none c') := .ok joined (Nat.zero_add n).symm rfl
  cases C.sight joined with
  | nothing ended ended' =>
    rw [ended, ended']
    exact stays
  | @token token d d' next next' _ _ behind =>
    -- Neither a token that may come here nor the end of the line is of the class.
    have absent : select token.lexeme = Option.none := by
      rcases behind with ⟨-, closed⟩ | ⟨-, ends⟩
      · exact none _ (closed flat)
      · rw [ends]
        exact none .newline rfl
    simp only [next, next', absent]
    exact stays

/-- Where the upcoming token stands. -/
theorem here_agree : C.Agree bound Any Parse.here Parse.here := by
  -- Looking at the upcoming token agrees, and its position comes with it.
  refine peek?_agree.bind fun _ found _ => ?_
  cases found <;> exact .answer trivial

/-- Tokens that are read past are those at the front. -/
theorem skipFrom_suffix (p : Lexeme → Bool) (last : Pos) (tokens : List Token) :
    (Cursor.skipFrom p last tokens).rest <:+ tokens := by
  -- A comment or a token of the class is dropped from the front, and any other stops it.
  induction tokens generalizing last with
  | nil => exact List.suffix_refl _
  | cons token rest ih =>
    unfold Cursor.skipFrom
    split
    · exact (ih last).trans (List.suffix_cons _ _)
    · split
      · exact (ih token.pos).trans (List.suffix_cons _ _)
      · exact List.suffix_refl _

/-- What it is to fail with the upcoming token. -/
theorem unexpected_eq (cursor : Cursor) :
    (unexpected : Parse α) cursor =
      match cursor.next? with
      | some (token, _) => .error (.unexpectedToken token.pos token.lexeme.render) cursor
      | none => .error (.unexpectedEnd cursor.last) cursor := by
  -- By what comes next.
  have seen : Parse.peek? cursor = .ok (cursor.next?.map (·.1)) cursor := rfl
  unfold unexpected
  rw [bind_of_ok seen]
  cases cursor.next? <;> rfl

/-- A failure with the upcoming token. -/
theorem unexpected_agree {told : Nat → α → Prop} :
    C.Agree bound told Parse.unexpected Parse.unexpected := by
  -- Both runs see the same, and neither reads it.
  intro n c c' joined _
  rw [unexpected_eq, unexpected_eq]
  cases C.sight joined with
  | nothing ended ended' refused =>
    rw [ended, ended', ← C.last joined]
    exact .error refused
  | token next next' unread =>
    rw [next, next']
    exact .error unread

/-- Looking for a class. -/
theorem isAt_agree (p : Lexeme → Bool) :
    C.Agree bound Any (Parse.isAt p) (Parse.isAt p) := by
  -- Looking at the upcoming token agrees, and so does the class of it.
  refine peek?_agree.bind fun _ found _ => ?_
  cases found <;> exact .answer trivial

/-- Looking for a glyph. -/
theorem isAtGlyph_agree (glyph : Glyph) :
    C.Agree bound Any (Parse.isAtGlyph glyph) (Parse.isAtGlyph glyph) :=
  isAt_agree _

/-- A token that must be of a class. -/
theorem require_agree {select : Lexeme → Option α} (other : C.oneLine → select .newline = none) :
    C.Agree bound (fun n _ => 0 < n) (Parse.require select) (Parse.require select) := by
  -- A token that is taken was read; one of another class is refused where it stands.
  refine (accept?_agree other).bind fun n found took => ?_
  cases found with
  | none => exact unexpected_agree
  | some found => exact .answer (took rfl)

/-- A glyph, if it comes next. -/
theorem eat_agree (glyph : Glyph) :
    C.Agree bound (fun n found => found = true → 0 < n) (Parse.eat glyph) (Parse.eat glyph) :=
  (accept?_agree fun _ => rfl).bind fun _ _ took => .answer took

/-- Where nothing leads over the end of a line no brace opens. -/
theorem eat_leftCurly_agree (flat : C.flat) :
    C.Agree bound (fun _ found => found = false) (Parse.eat .leftCurly) (Parse.eat .leftCurly) := by
  -- A brace leads over ends of lines, so none can come here.
  refine (accept?_absent flat fun lexeme closed => ?_).bind fun _ found absent => ?_
  · refine if_neg ?_
    rintro rfl
    cases closed
  · rw [absent]
    exact .answer rfl

/-- A glyph that must come next. -/
theorem expect_agree (glyph : Glyph) :
    C.Agree bound (fun n _ => 0 < n) (Parse.expect glyph) (Parse.expect glyph) :=
  (require_agree fun _ => rfl).bind fun _ _ took => .answer took

/-- An identifier. -/
theorem ident_agree : C.Agree bound (fun n _ => 0 < n) Parse.ident Parse.ident :=
  (require_agree fun _ => rfl).bind fun _ _ took => .answer took

/-- Where ends of lines are read over, tokens may be read past. -/
theorem skip_agree (across : ¬ C.oneLine) (p : Lexeme → Bool) :
    C.Agree bound Any (Parse.skip p) (Parse.skip p) := by
  -- What one side reads past, the other does as well or has behind it already.
  intro n c c' joined _
  obtain ⟨m, fewer, later⟩ := C.skips across p joined
  exact .ok_of_le later fewer trivial

/-! ### Loops -/

/-- Rounds that go on read a token each, so that neither run ends for want of rounds. -/
theorem iterate_agree {told : Nat → β → Prop} {step step' : α → Parse (α ⊕ β)}
    (each : ∀ a, C.Agree bound (Round told) (step a) (step' a)) {rounds rounds' n before : Nat}
    {a : α} {c c' : Cursor} (joined : C.joined n c c') (few : n < bound) (enough : n < rounds)
    (enough' : n < rounds') :
    C.Ends n (fun read => told (before + read)) (iterate step rounds a c)
      (iterate step' rounds' a c') := by
  -- By induction on the rounds of the first run. A round that goes on leaves fewer tokens, so that
  -- the rounds of the other run last as well.
  induction rounds generalizing rounds' n before a c c' with
  | zero => omega
  | succ rounds ih =>
    obtain ⟨rounds', rfl⟩ : ∃ fewer, rounds' = fewer + 1 := Nat.exists_eq_add_one.2 (by omega)
    have ends := each a joined few
    show C.Ends n _ (EStateM.bind (step a) _ _) (EStateM.bind (step' a) _ _)
    unfold EStateM.bind
    revert ends
    generalize step a c = x
    generalize step' a c' = x'
    rintro (@⟨result, m, read, d, d', left, rfl, took⟩ | fails)
    · cases result with
      | inl a =>
        have some : 0 < read := took
        have later : C.Ends m (fun more => told (before + read + more)) (iterate step rounds a d)
            (iterate step' rounds' a d') := ih left (by omega) (by omega) (by omega)
        refine Ends.behind read ?_ rfl
        simpa only [Nat.add_assoc] using later
      | inr b => exact .ok left rfl (took before)
    · exact .error fails

/-- Loops whose rounds end alike. -/
theorem loop_agree {told : Nat → β → Prop} {step step' : α → Parse (α ⊕ β)}
    (each : ∀ a, C.Agree bound (Round told) (step a) (step' a)) (a : α) :
    C.Agree bound told (Parse.loop step a) (Parse.loop step' a) := by
  intro n c c' joined few
  -- A loop has a round for each unread token and one more.
  have fewer := C.few joined
  have ends : C.Ends n (fun read => told (0 + read)) (Parse.loop step a c)
      (Parse.loop step' a c') := iterate_agree each joined few (by omega) (by omega)
  simpa only [Nat.zero_add] using ends

/-- A round over items with a separator between them. -/
def itemStep (item : Parse α) (separator : Glyph) (items : List α) :
    Parse (List α ⊕ List α) := do
  let items := items ++ [← item]
  if ← eat separator then return .inl items else return .inr items

/-- A round over items reads one. -/
theorem itemStep_agree {item : Parse α} (each : C.Agree bound (fun n _ => 0 < n) item item)
    (separator : Glyph) (items : List α) :
    C.Agree bound (Round fun n _ => 0 < n) (itemStep item separator items)
      (itemStep item separator items) := by
  -- An item is read, and a separator behind it says whether another one follows.
  refine each.bind fun n _ some => (eat_agree separator).bind fun m found _ => ?_
  cases found with
  | true => exact .answer (Nat.add_pos_left some _)
  | false => exact .answer fun before => Nat.add_pos_right before (Nat.add_pos_left some _)

/-- Items with a separator between them. -/
theorem sepBy_agree {item : Parse α} (each : C.Agree bound (fun n _ => 0 < n) item item)
    (separator close : Glyph) :
    C.Agree bound Any (sepBy item separator close) (sepBy item separator close) := by
  -- Without an item the closing glyph comes at once.
  refine (isAtGlyph_agree close).bind fun _ found _ => ?_
  cases found with
  | true => exact .answer trivial
  | false => exact (loop_agree (itemStep_agree each separator) []).any

/-! ### Expressions -/

/-- A round over the members of a name reads one, or there is no dot. -/
theorem nameStep_agree (path : String) :
    C.Agree bound (Round Any) (nameStep path) (nameStep path) := by
  -- A dot says whether a member follows.
  refine (eat_agree .period).bind fun n found took => ?_
  cases found with
  | true => exact ident_agree.bind fun m _ _ => .answer (Nat.add_pos_left (took rfl) _)
  | false => exact .answer fun _ => trivial

/-- The rest of a dotted name. -/
theorem nameFrom_agree (head : String) :
    C.Agree bound Any (nameFrom head) (nameFrom head) :=
  loop_agree nameStep_agree head

/-- A dotted name. -/
theorem name_agree : C.Agree bound Any name name :=
  ident_agree.bind fun _ head _ => nameFrom_agree head

/-- Something in parentheses. -/
theorem parens_agree {inner inner' : Parse α} (agree : C.Agree bound Any inner inner') :
    C.Agree bound Any (parens inner) (parens inner') :=
  (expect_agree .leftParen).bind fun _ _ _ => agree.bind fun _ _ _ =>
    (expect_agree .rightParen).bind fun _ _ _ => .answer trivial

/-- A round over operators of one level reads one, or there is none. -/
theorem chainStep_agree (level : List (Glyph × BinaryOp)) {operand operand' : Parse Expr}
    (agree : C.Agree bound Any operand operand') (lhs : Expr) :
    C.Agree bound (Round Any) (chainStep level operand lhs) (chainStep level operand' lhs) := by
  -- An operator of the level says whether an operand follows.
  refine (accept?_agree fun _ => rfl).bind fun n found took => ?_
  cases found with
  | some op => exact agree.bind fun m _ _ => .answer (Nat.add_pos_left (took rfl) _)
  | none => exact .answer fun _ => trivial

/-- Operands with operators of one level between them. -/
theorem chain_agree (level : List (Glyph × BinaryOp)) {operand operand' : Parse Expr}
    (agree : C.Agree bound (fun n _ => 0 < n) operand operand') :
    C.Agree bound (fun n _ => 0 < n) (chain level operand) (chain level operand') := by
  -- The first operand reads a token, and then the loop over the others agrees.
  refine agree.bind fun n first some => ?_
  have others := loop_agree (chainStep_agree level agree.any) first
  exact others.mono fun m _ _ => Nat.add_pos_left some m

/-- Operators of several levels over a tighter operand. -/
theorem binary_agree {operand operand' : Parse Expr}
    (agree : C.Agree bound (fun n _ => 0 < n) operand operand')
    (levels : List (List (Glyph × BinaryOp))) :
    C.Agree bound (fun n _ => 0 < n) (binary operand levels) (binary operand' levels) := by
  -- Each level has those that bind tighter as its operand.
  induction levels with
  | nil => exact agree
  | cons level tighter ih => exact chain_agree level ih

/-- A round over prefix operators reads one, or the primary behind them. -/
theorem unaryStep_agree {primary primary' : Parse Expr}
    (agree : C.Agree bound (fun n _ => 0 < n) primary primary') (ops : List UnaryOp) :
    C.Agree bound (Round fun n _ => 0 < n) (unaryStep primary ops) (unaryStep primary' ops) := by
  -- An operator is read, or else the primary.
  refine (accept?_agree fun _ => rfl).bind fun n found took => ?_
  cases found with
  | some op => exact .answer (took rfl)
  | none =>
    refine agree.bind fun m _ some => .answer fun before => ?_
    exact Nat.add_pos_right before (Nat.add_pos_right n some)

/-- Prefix operators before a primary. -/
theorem unary_agree {primary primary' : Parse Expr}
    (agree : C.Agree bound (fun n _ => 0 < n) primary primary') :
    C.Agree bound (fun n _ => 0 < n) (unary primary) (unary primary') :=
  loop_agree (unaryStep_agree agree) []

/-- What a primary is once its first token is read. -/
def primaryFrom (expression : Parse Expr) (token : Token) : Parse Expr :=
  match token.lexeme with
  | .number _ value => return .number value
  | .char c => return .number (Int64.ofNat c.toNat)
  | .glyph .leftParen => do
    let e ← expression
    let _ ← expect .rightParen
    return e
  | .keyword .sizeof => return .sizeof (← parens name)
  | .ident word => do
    if (word = "lo" ∨ word = "hi") ∧ (← isAtGlyph .leftParen) then
      let e ← parens expression
      return .unary (if word = "lo" then .lo else .hi) e
    else
      return .name (← nameFrom word)
  | lexeme => throw (.unexpectedToken token.pos lexeme.render)

/-- A primary starts with any token. -/
theorem primary_eq (expression : Parse Expr) :
    primary expression = next >>= primaryFrom expression :=
  rfl

/-- What it is to read a primary. -/
theorem primary_of_next? {expression : Parse Expr} {cursor after : Cursor} {token : Token}
    (found : cursor.next? = some (token, after)) :
    primary expression cursor = primaryFrom expression token after := by
  -- A primary starts with reading the token.
  have ran : next cursor = .ok token after := by
    refine bind_of_ok (a := some token) ?_
    rw [next?_eq, found]
  rw [primary_eq, bind_of_ok ran]

/-- Without a token there is no primary. -/
theorem primary_of_none {expression : Parse Expr} {cursor : Cursor} (none : cursor.next? = none) :
    primary expression cursor = .error (.unexpectedEnd cursor.last) cursor := by
  -- A primary starts with a token, which is missing.
  have ended : next? cursor = .ok Option.none cursor := by
    rw [next?_eq, none]
  rw [primary_eq]
  show EStateM.bind (EStateM.bind next? _) _ _ = _
  unfold EStateM.bind
  rw [ended]
  rfl

/-- Behind its first token a primary ends alike, or that token is refused. -/
theorem primaryFrom_agree {expression expression' : Parse Expr}
    (agree : C.Agree bound Any expression expression') {token : Token} {n : Nat} {c c' : Cursor}
    (refused : C.fails (.unexpectedToken token.pos token.lexeme.render) c c')
    (joined : C.joined n c c') (few : n < bound) :
    C.Ends n Any (primaryFrom expression token c) (primaryFrom expression' token c') := by
  -- By the first token. Only one that opens parentheses leads to an expression again.
  unfold primaryFrom
  cases lexeme : token.lexeme with
  -- Numbers and characters are primaries by themselves.
  | number _ value => exact Coupling.Agree.answer trivial joined few
  | char c => exact Coupling.Agree.answer trivial joined few
  | glyph g =>
    -- A parenthesis encloses an expression, and no other glyph starts a primary.
    rw [lexeme] at refused
    cases g with
    | leftParen =>
      refine agree.andThen (fun e => ?_) joined few
      exact (expect_agree .rightParen).bind fun _ _ _ => .answer trivial
    | _ => exact .error refused
  | keyword k =>
    -- The size of a type is asked for by a name in parentheses.
    rw [lexeme] at refused
    cases k with
    | sizeof =>
      refine (parens_agree name_agree).andThen (fun _ => ?_) joined few
      exact .answer trivial
    | _ => exact .error refused
  | ident word =>
    -- A word is a function if a parenthesis comes next, and a name otherwise.
    simp only
    refine (isAtGlyph_agree .leftParen).andThen (fun found => ?_) joined few
    split
    · exact (parens_agree agree).bind fun _ _ _ => .answer trivial
    · exact (nameFrom_agree _).bind fun _ _ _ => .answer trivial
  | _ =>
    -- No other lexeme starts a primary.
    rw [lexeme] at refused
    exact .error refused

/-- A primary takes a token before an expression in it is read. The end of a line is no such token,
but it is read. -/
theorem primary_agree {expression expression' : Parse Expr}
    (agree : C.Agree bound Any expression expression') :
    C.Agree (bound + 1) (fun n _ => 0 < n) (primary expression) (primary expression') := by
  -- By what both runs see: nothing, a token of the line, or the end of the line.
  intro n c c' joined few
  cases C.sight joined with
  | nothing ended ended' refused =>
    rw [primary_of_none ended, primary_of_none ended', ← C.last joined]
    exact .error refused
  | @token token d d' next next' _ read behind =>
    rw [primary_of_next? next, primary_of_next? next']
    rcases behind with ⟨⟨m, fewer, later⟩, -⟩ | ⟨-, ends⟩
    · have rest := primaryFrom_agree agree read later (by omega)
      exact (rest.mono fun _ _ _ => by omega).behind (n - m) (by omega)
    · have refuses : ∀ (e : Parse Expr) (cursor : Cursor), primaryFrom e token cursor =
          .error (.unexpectedToken token.pos token.lexeme.render) cursor := by
        intro e cursor
        unfold primaryFrom
        rw [ends]
        rfl
      rw [refuses, refuses]
      exact .error read

/-- The depths that expressions may have make no difference where both are enough. -/
theorem expressionWithin_agree {depth depth' : Nat} (enough : bound ≤ depth)
    (enough' : bound ≤ depth') :
    C.Agree bound (fun n _ => 0 < n) (expressionWithin depth) (expressionWithin depth') := by
  -- By induction on the bound: in parentheses there are fewer tokens left.
  induction bound generalizing depth depth' with
  | zero => exact fun _ _ _ _ few => (Nat.not_lt_zero _ few).elim
  | succ bound ih =>
    obtain ⟨depth, rfl⟩ : ∃ less, depth = less + 1 := Nat.exists_eq_add_one.2 (by omega)
    obtain ⟨depth', rfl⟩ : ∃ less, depth' = less + 1 := Nat.exists_eq_add_one.2 (by omega)
    have inner := ih (Nat.le_of_succ_le_succ enough) (Nat.le_of_succ_le_succ enough')
    exact binary_agree (unary_agree (primary_agree inner.any)) operatorLevels

/-- An expression as written has a token. -/
theorem expression_agree : C.Agree bound (fun n _ => 0 < n) expression expression := by
  intro n c c' joined _
  have fewer := C.few joined
  -- Each run has a depth for each of its tokens, and the bound is the number of those that both
  -- see.
  have deep : C.Agree (n + 1) (fun read _ => 0 < read) (expressionWithin (c.rest.length + 1))
      (expressionWithin (c'.rest.length + 1)) :=
    expressionWithin_agree (by omega) (by omega)
  exact deep joined (Nat.lt_succ_self n)

end Parse

end CrossAsm

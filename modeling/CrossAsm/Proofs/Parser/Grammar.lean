import CrossAsm.Parser.Expr
import CrossAsm.Proofs.Parser.Reading

/-! The grammar of expressions, and the proof that reading one accepts exactly that grammar. -/

namespace CrossAsm

open Token (lexemes Uncommented)

/-- The glyph of a binary operator. -/
def BinaryOp.glyph : BinaryOp → Glyph
  | .or => .pipe
  | .xor => .caret
  | .and => .ampersand
  | .shl => .doubleLess
  | .shr => .doubleGreater
  | .add => .plus
  | .sub => .minus
  | .mul => .star
  | .div => .slash
  | .mod => .percent

/-- The level of a binary operator, from the loosest on. -/
def BinaryOp.level : BinaryOp → Nat
  | .or => 0
  | .xor => 1
  | .and => 2
  | .shl | .shr => 3
  | .add | .sub => 4
  | .mul | .div | .mod => 5

/-- The glyph of a prefix operator. -/
def UnaryOp.glyph : UnaryOp → Glyph
  | .neg => .minus
  | .not => .tilde
  | .lo => .less
  | .hi => .greater

/-- The word of an operator that is written as a function too. -/
def UnaryOp.function? : UnaryOp → Option String
  | .lo => some "lo"
  | .hi => some "hi"
  | .neg | .not => none

/-- How names are written: words with dots between them. -/
inductive Dotted : List Lexeme → String → Prop
  | word (word : String) : Dotted [.ident word] word
  | member {written : List Lexeme} {path : String} (word : String) (owner : Dotted written path) :
      Dotted (written ++ [.glyph .period, .ident word]) (path ++ "." ++ word)

/-- How expressions are written: at the levels below six the operators of that level, grouped to the
left, at six those in front of their operand, and at seven what needs no operator. -/
inductive Derives : Nat → List Lexeme → Expr → Prop
  | tighter {level : Nat} {written : List Lexeme} {e : Expr} (below : level < 7)
      (operand : Derives (level + 1) written e) : Derives level written e
  | operation (op : BinaryOp) {lefts rights : List Lexeme} {l r : Expr}
      (left : Derives op.level lefts l) (right : Derives (op.level + 1) rights r) :
      Derives op.level (lefts ++ .glyph op.glyph :: rights) (.binary op l r)
  | prefixed (op : UnaryOp) {written : List Lexeme} {e : Expr} (operand : Derives 6 written e) :
      Derives 6 (.glyph op.glyph :: written) (.unary op e)
  | number (spelling : String) (value : Int64) :
      Derives 7 [.number spelling value] (.number value)
  | char (c : Char) : Derives 7 [.char c] (.number (Int64.ofNat c.toNat))
  | parens {written : List Lexeme} {e : Expr} (inner : Derives 0 written e) :
      Derives 7 (.glyph .leftParen :: (written ++ [.glyph .rightParen])) e
  | sizeof {written : List Lexeme} {path : String} (type : Dotted written path) :
      Derives 7 (.keyword .sizeof :: .glyph .leftParen :: (written ++ [.glyph .rightParen]))
        (.sizeof path)
  | function (op : UnaryOp) {word : String} {written : List Lexeme} {e : Expr}
      (named : op.function? = some word) (inner : Derives 0 written e) :
      Derives 7 (.ident word :: .glyph .leftParen :: (written ++ [.glyph .rightParen]))
        (.unary op e)
  | name {written : List Lexeme} {path : String} (dotted : Dotted written path) :
      Derives 7 written (.name path)

/-- What is derived at a level is derived at the looser ones. -/
theorem Derives.loosen {tight loose : Nat} {written : List Lexeme} {e : Expr}
    (derived : Derives tight written e) (bound : tight ≤ 7) (below : loose ≤ tight) :
    Derives loose written e := by
  -- By induction on how many levels are in between.
  induction below with
  | refl => exact derived
  | step _ ih => exact ih (.tighter (by omega) derived) (by omega)

/-! ### The tables of operators -/

/-- The lexemes that spell an operator of a level are the glyphs of its operators. -/
theorem operatorOf_eq_some {level : Nat} (below : level < Parse.operatorLevels.length)
    {lexeme : Lexeme} {op : BinaryOp} :
    Parse.operatorOf Parse.operatorLevels[level] lexeme = some op ↔
      lexeme = .glyph op.glyph ∧ op.level = level := by
  -- Each of the six rows is searched for each operator.
  have rows : level = 0 ∨ level = 1 ∨ level = 2 ∨ level = 3 ∨ level = 4 ∨ level = 5 := by
    simp only [Parse.operatorLevels, List.length_cons, List.length_nil] at below
    omega
  cases lexeme with
  | glyph glyph =>
    rcases rows with rfl | rfl | rfl | rfl | rfl | rfl <;>
      cases op <;>
        simp [Parse.operatorOf, Parse.operatorLevels, Entries.get?, BinaryOp.level,
          BinaryOp.glyph] <;> grind
  | _ => simp [Parse.operatorOf]

/-- The lexemes that spell a prefix operator are the glyphs of those operators. -/
theorem prefixOp_eq_some {lexeme : Lexeme} {op : UnaryOp} :
    Parse.prefixOp lexeme = some op ↔ lexeme = .glyph op.glyph := by
  -- Among the glyphs, those of prefix operators are compared one by one.
  cases lexeme with
  | glyph glyph => cases glyph <;> cases op <;> simp [Parse.prefixOp, UnaryOp.glyph]
  | _ => simp [Parse.prefixOp]

namespace Parse

/-! ### The rules, their loops by name -/

/-- A round over the operators of one level. -/
def chainStep (level : List (Glyph × BinaryOp)) (operand : Parse Expr) (lhs : Expr) :
    Parse (Expr ⊕ Expr) := do
  match ← accept? (operatorOf level) with
  | some (op, _) => return .inl (.binary op lhs (← operand))
  | none => return .inr lhs

/-- A round over prefix operators. -/
def unaryStep (primary : Parse Expr) (ops : List UnaryOp) : Parse (List UnaryOp ⊕ Expr) := do
  match ← accept? prefixOp with
  | some (op, _) => return .inl (ops ++ [op])
  | none => return .inr (ops.foldr .unary (← primary))

/-- A round over the members of a name. -/
def nameStep (path : String) : Parse (String ⊕ String) := do
  if ← eat .period then
    return .inl (path ++ "." ++ (← ident))
  else
    return .inr path

/-- Expressions of a level with at most the given depth of parentheses inside. -/
def tier (depth level : Nat) : Parse Expr :=
  binary (unary (primary (expressionWithin depth))) (operatorLevels.drop level)

/-- A level of operators stands over the level after it. -/
theorem tier_eq_chain (depth : Nat) {level : Nat} (below : level < operatorLevels.length) :
    tier depth level = tier depth (level + 1) >>=
      loop (chainStep operatorLevels[level] (tier depth (level + 1))) := by
  -- The levels left at this one are it and those after it.
  rw [tier, List.drop_eq_getElem_cons below]
  rfl

/-! ### What is read is derived -/

/-- The rest of a name goes on with what was read of it. -/
theorem Yields.nameFrom {seen : List Lexeme} {head : String} (start : Dotted seen head) :
    Yields (Parse.nameFrom head) fun read path => Dotted (seen ++ read) path := by
  -- Each round reads a dot and a member, or ends the name.
  refine Yields.loop (fun seen path dotted => ?_) start
  refine (Yields.eat .period).bind fun early found holds => ?_
  cases found with
  | false =>
    refine (Yields.answer _).mono ?_
    rintro late _ ⟨rfl, rfl⟩
    obtain rfl := holds
    simpa using dotted
  | true =>
    refine Yields.ident.bind fun middle word same => (Yields.answer _).mono ?_
    rintro late _ ⟨rfl, rfl⟩
    obtain rfl := holds
    obtain rfl := same
    exact dotted.member word

/-- A name that is read is dotted. -/
theorem Yields.name : Yields Parse.name Dotted := by
  -- The first word is read, and the name goes on from there.
  refine Yields.ident.bind fun early word holds => ?_
  obtain rfl := holds
  exact nameFrom (.word word)

/-- What stands in parentheses is read with them. -/
theorem Yields.parens {α : Type} {inner : Parse α} {reading : List Lexeme → α → Prop}
    (yields : Yields inner reading) :
    Yields (Parse.parens inner) fun read a => ∃ middle, reading middle a ∧
      read = .glyph .leftParen :: (middle ++ [.glyph .rightParen]) := by
  -- The three parts are read one after another.
  refine (expect .leftParen).bind fun early _ left => ?_
  refine yields.bind fun middle a holds => ?_
  refine (expect .rightParen).bind fun late _ right => (answer a).mono ?_
  rintro none _ ⟨rfl, rfl⟩
  obtain rfl := left
  obtain rfl := right
  exact ⟨middle, holds, rfl⟩

/-- A primary that is read is derived at the tightest level, if what it reads in parentheses is at
the loosest. -/
theorem Yields.primary {expression : Parse Expr} (inner : Yields expression (Derives 0)) :
    Yields (Parse.primary expression) (Derives 7) := by
  refine Yields.next.bind fun early token holds => ?_
  obtain rfl := holds
  -- One case for each lexeme that starts a primary; the others are errors.
  generalize token.lexeme = lexeme
  cases lexeme with
  | number spelling value =>
    -- A number or a character is read by itself.
    refine (answer _).mono ?_
    rintro late _ ⟨rfl, rfl⟩
    exact .number spelling value
  | char c =>
    refine (answer _).mono ?_
    rintro late _ ⟨rfl, rfl⟩
    exact .char c
  | glyph glyph =>
    -- A parenthesis encloses an expression.
    cases glyph with
    | leftParen =>
      refine inner.bind fun middle e derived => (expect .rightParen).bind fun late _ right => ?_
      refine (answer e).mono ?_
      rintro none _ ⟨rfl, rfl⟩
      obtain rfl := right
      exact .parens derived
    | _ => exact failure _
  | keyword keyword =>
    -- The size of a type is asked for by a name.
    cases keyword with
    | sizeof =>
      refine (parens name).bind fun late path holds => (answer _).mono ?_
      rintro none _ ⟨rfl, rfl⟩
      obtain ⟨middle, dotted, rfl⟩ := holds
      rw [List.append_nil]
      exact .sizeof dotted
    | _ => exact failure _
  | ident word =>
    -- A word is a function of an expression in parentheses, or begins a name.
    refine (isAt _).bind fun none function holds => ?_
    obtain rfl := holds
    split
    · rename_i chosen
      refine (parens inner).bind fun late e holds => (answer _).mono ?_
      rintro none _ ⟨rfl, rfl⟩
      obtain ⟨middle, derived, rfl⟩ := holds
      rw [List.append_nil]
      refine .function _ ?_ derived
      rcases chosen.1 with rfl | rfl <;> rfl
    · refine (nameFrom (.word word)).bind fun late path dotted => (answer _).mono ?_
      rintro none _ ⟨rfl, rfl⟩
      rw [List.append_nil]
      exact .name dotted
  | _ => exact failure _

/-- Lexemes that may be put before any operand, which the operators then wrap. -/
def Wraps (seen : List Lexeme) (ops : List UnaryOp) : Prop :=
  ∀ ⦃written e⦄, Derives 6 written e → Derives 6 (seen ++ written) (ops.foldr .unary e)

/-- Prefix operators that are read wrap what is read after them. -/
theorem Yields.unary {primary : Parse Expr} (tight : Yields primary (Derives 7)) :
    Yields (Parse.unary primary) (Derives 6) := by
  -- Each round reads an operator, until the primary is read.
  have nothing : Wraps [] [] := fun _ _ derived => derived
  refine loop (fun seen ops wraps => ?_) nothing
  refine (accept? prefixOp).bind fun early found holds => ?_
  cases found with
  | none =>
    refine tight.bind fun late e derived => (answer _).mono ?_
    rintro none _ ⟨rfl, rfl⟩
    obtain rfl := holds
    have whole := wraps (.tighter (by omega) derived)
    simpa using whole
  | some found =>
    obtain ⟨lexeme, rfl, chosen⟩ := holds
    refine (answer _).mono ?_
    rintro none _ ⟨rfl, rfl⟩ written e derived
    obtain rfl := prefixOp_eq_some.1 chosen
    have whole := wraps (.prefixed found.1 derived)
    simpa using whole

/-- Operators of a level that are read group what is read between them to the left. -/
theorem Yields.chain {level : Nat} (below : level < operatorLevels.length) {operand : Parse Expr}
    (tight : Yields operand (Derives (level + 1))) :
    Yields (operand >>= Parse.loop (chainStep operatorLevels[level] operand)) (Derives level) := by
  -- The loop keeps that what was read so far is derived at the level.
  refine tight.bind fun early lhs derived => ?_
  refine loop (fun seen lhs left => ?_) (Derives.tighter ?_ derived)
  · refine (accept? _).bind fun early found holds => ?_
    cases found with
    | none =>
      refine (answer _).mono ?_
      rintro late _ ⟨rfl, rfl⟩
      obtain rfl := holds
      simpa using left
    | some found =>
      obtain ⟨lexeme, rfl, chosen⟩ := holds
      obtain ⟨rfl, rfl⟩ := (operatorOf_eq_some below).1 chosen
      refine tight.bind fun late rhs right => (answer _).mono ?_
      rintro none _ ⟨rfl, rfl⟩
      simpa using left.operation found.1 right
  · exact Nat.lt_succ_of_lt below

/-- What a level reads is derived at it. -/
theorem Yields.tier {depth : Nat} (inner : Yields (expressionWithin depth) (Derives 0)) :
    ∀ {level gap : Nat}, level + gap = 6 → Yields (Parse.tier depth level) (Derives level) := by
  -- By induction on the levels that are tighter: the loosest one stands over all of them.
  intro level gap levels
  induction gap generalizing level with
  | zero =>
    obtain rfl : level = 6 := levels
    exact unary (primary inner)
  | succ gap ih =>
    have below : level < operatorLevels.length := by
      show level < 6
      omega
    rw [tier_eq_chain depth below]
    exact chain below (ih (by omega))

/-- What is read as an expression is derived. -/
theorem Yields.expressionWithin (depth : Nat) :
    Yields (Parse.expressionWithin depth) (Derives 0) := by
  -- By induction on the depth; with none left nothing is read.
  induction depth with
  | zero =>
    intro cursor after e _ ran
    cases ran
  | succ depth ih => exact tier ih (Nat.zero_add 6)

/-! ### What is derived is read -/

/-- Lexemes that do not continue an expression of a level: no operator as tight comes first, and
neither a dot nor an opening parenthesis does. -/
def Stops (level : Nat) (rest : List Lexeme) : Prop :=
  ∀ lexeme ∈ rest.head?, lexeme ≠ .glyph .period ∧ lexeme ≠ .glyph .leftParen ∧
    ∀ op : BinaryOp, level ≤ op.level → lexeme ≠ .glyph op.glyph

/-- What does not continue a loose expression does not continue a tight one. -/
theorem Stops.mono {level tighter : Nat} {rest : List Lexeme} (stops : Stops level rest)
    (tight : level ≤ tighter) : Stops tighter rest := by
  -- The operators at or above the tight level are some of those above the loose one.
  intro lexeme first
  obtain ⟨noDot, noParen, noOp⟩ := stops lexeme first
  exact ⟨noDot, noParen, fun op above => noOp op (Nat.le_trans tight above)⟩

/-- A closing parenthesis continues nothing. -/
theorem stops_rightParen (level : Nat) (rest : List Lexeme) :
    Stops level (.glyph .rightParen :: rest) := by
  -- It is no dot, no opening parenthesis and no operator.
  rintro lexeme ⟨⟩
  refine ⟨by simp, by simp, fun op _ => ?_⟩
  cases op <;> simp [BinaryOp.glyph]

/-- An operator continues nothing tighter than itself. -/
theorem stops_operator (op : BinaryOp) (rest : List Lexeme) :
    Stops (op.level + 1) (.glyph op.glyph :: rest) := by
  rintro lexeme ⟨⟩
  refine ⟨by cases op <;> simp [BinaryOp.glyph], by cases op <;> simp [BinaryOp.glyph], ?_⟩
  -- Operators that share a glyph share a level.
  intro other above same
  have levels : other.level = op.level := by
    cases op <;> cases other <;> simp_all [BinaryOp.glyph, BinaryOp.level]
  omega

/-- A name starts with a word and goes on with its members, each after a dot. -/
theorem Leads.name {written : List Lexeme} {path : String} (dotted : Dotted written path) :
    ∃ word more, written = .ident word :: more ∧ (∀ lexeme ∈ more.head?, lexeme = .glyph .period) ∧
      Leads (nameFrom word) nameStep more (fun _ => True) path := by
  -- By induction on the name, each member of which is one more round.
  induction dotted with
  | word word => exact ⟨word, [], rfl, by simp, .loop nameStep word⟩
  | member member _ ih =>
    obtain ⟨word, more, rfl, dots, leads⟩ := ih
    refine ⟨word, more ++ [.glyph .period, .ident member], rfl, ?_, ?_⟩
    · cases more with
      | nil => simp
      | cons => exact dots
    · refine leads.round ?_ (List.cons_ne_nil _ _) fun _ _ => trivial
      refine (Reads.eat .period).cons ?_
      rintro _ rfl
      refine (Reads.ident member).map ?_
      rintro _ rfl
      rfl

/-- The rest of a name is read as long as no dot follows. -/
theorem Reads.nameFrom {written : List Lexeme} {path : String} (dotted : Dotted written path) :
    ∃ word more, written = .ident word :: more ∧ (∀ lexeme ∈ more.head?, lexeme = .glyph .period) ∧
      Reads (Parse.nameFrom word) more (fun rest => rest.head? ≠ some (.glyph .period))
        (· = path) := by
  -- The loop goes through the members, and ends where no dot follows.
  obtain ⟨word, more, rfl, dots, leads⟩ := Leads.name dotted
  refine ⟨word, more, rfl, dots, ?_⟩
  have ends : Reads (nameStep path) [] (fun rest => rest.head? ≠ some (.glyph .period))
      (· = .inr path) := by
    refine (Reads.eat_not .period).ends ?_
    rintro _ rfl
    exact .answer rfl
  have whole := leads.stop ends fun _ _ => trivial
  rwa [List.append_nil] at whole

/-- A name is read as long as no dot follows. -/
theorem Reads.name {written : List Lexeme} {path : String} (dotted : Dotted written path) :
    Reads Parse.name written (fun rest => rest.head? ≠ some (.glyph .period)) (· = path) := by
  -- The first word is read, and then the rest of the name.
  obtain ⟨word, more, rfl, -, reads⟩ := nameFrom dotted
  refine (ident word).cons ?_
  rintro _ rfl
  exact reads

/-- What is read in front of a closing parenthesis is read in parentheses. -/
theorem Reads.parens {α : Type} {inner : Parse α} {written : List Lexeme}
    {middle ahead : List Lexeme → Prop} {told : α → Prop} (reads : Reads inner written middle told)
    (closes : ∀ rest, middle (.glyph .rightParen :: rest)) :
    Reads (Parse.parens inner) (.glyph .leftParen :: (written ++ [.glyph .rightParen])) ahead
      told := by
  -- The opening parenthesis, what is inside and the closing one are read in turn.
  refine (expect .leftParen).cons fun _ _ => ?_
  refine reads.bind (fun a holds => ?_) fun rest _ => closes rest
  exact (expect .rightParen).map fun _ _ => holds

/-- What is derived at a level, as its rule reads it: the loops over operators and prefixes may have
read something before. -/
structure Accepted (depth level : Nat) (written : List Lexeme) (e : Expr) : Prop where
  /-- A chain of operators has come to the expression. -/
  chained : (below : level < operatorLevels.length) →
    Leads (tier depth level) (chainStep operatorLevels[level] (tier depth (level + 1))) written
      (Stops (level + 1)) e
  /-- Prefix operators wrap the expression. -/
  wrapped : level = 6 → ∀ {p : Parse Expr} {early : List Lexeme} {ops : List UnaryOp},
    Leads p (unaryStep (primary (expressionWithin depth))) early (fun _ => True) ops →
      Reads p (early ++ written) (Stops 6) (· = ops.foldr .unary e)
  /-- The expression is a primary, and no prefix operator. -/
  tightest : level = 7 → (∃ first more, written = first :: more ∧ prefixOp first = none) ∧
    Reads (primary (expressionWithin depth)) written (Stops 7) (· = e)

/-- What is accepted at a level of operators is read where nothing continues it. -/
theorem Accepted.reads {depth level : Nat} {written : List Lexeme} {e : Expr}
    (accepted : Accepted depth level written e) (bound : level ≤ 6) :
    Reads (tier depth level) written (Stops level) (· = e) := by
  -- A level of binary operators is a loop, and the prefix operators are one as well.
  rcases Nat.lt_or_eq_of_le bound with below | rfl
  · have ends : Reads (chainStep operatorLevels[level] (tier depth (level + 1)) e) []
        (Stops level) (· = .inr e) := by
      refine (Reads.accept?_none.follows fun rest stops lexeme first => ?_).ends ?_
      · -- An operator of the level would continue the expression.
        refine Option.eq_none_iff_forall_not_mem.2 fun op chosen => ?_
        obtain ⟨rfl, same⟩ := (operatorOf_eq_some below).1 chosen
        exact (stops _ first).2.2 op (Nat.le_of_eq same.symm) rfl
      · rintro _ rfl
        exact .answer rfl
    have whole := (accepted.chained below).stop ends fun _ stops => stops.mono (Nat.le_succ _)
    rwa [List.append_nil] at whole
  · exact accepted.wrapped rfl (.loop _ [])

/-- A primary is accepted once its rule reads it. -/
theorem accepted_of_primary {depth : Nat} {first : Lexeme} {more : List Lexeme} {e : Expr}
    (plain : prefixOp first = none)
    (reads : Reads (primary (expressionWithin depth)) (first :: more) (Stops 7) (· = e)) :
    Accepted depth 7 (first :: more) e where
  chained below := absurd below (by decide)
  wrapped six := absurd six (by decide)
  tightest _ := ⟨⟨first, more, rfl, plain⟩, reads⟩

/-- What is accepted at a level is accepted at the looser one before it. -/
theorem Accepted.looser {depth level : Nat} {written : List Lexeme} {e : Expr} (below : level < 7)
    (accepted : Accepted depth (level + 1) written e) : Accepted depth level written e where
  chained loose := by
    rw [tier_eq_chain depth loose]
    exact .enter (accepted.reads (Nat.succ_le_of_lt loose))
  wrapped six p early ops leads := by
    obtain rfl := six
    obtain ⟨⟨first, more, rfl, plain⟩, reads⟩ := accepted.tightest rfl
    -- No prefix operator comes first, so the loop ends with the primary.
    refine leads.stop ?_ fun _ _ => trivial
    refine Reads.accept?_none.starts (fun found none => ?_) fun rest _ lexeme head => ?_
    · obtain rfl := none
      refine (reads.follows fun rest stops => stops.mono (by omega)).map ?_
      rintro _ rfl
      rfl
    · obtain rfl : first = lexeme := by simpa using head
      exact plain
  tightest seven := absurd seven (Nat.ne_of_lt below)

/-- An operator of a level joins what is accepted on its two sides. -/
theorem Accepted.operation {depth : Nat} (op : BinaryOp) {lefts rights : List Lexeme} {l r : Expr}
    (left : Accepted depth op.level lefts l) (right : Accepted depth (op.level + 1) rights r) :
    Accepted depth op.level (lefts ++ .glyph op.glyph :: rights) (.binary op l r) := by
  -- The operator is one more round of the loop that has read the left side.
  have tight : op.level ≤ 5 := by
    cases op <;> decide
  refine ⟨fun below => ?_, fun six => by omega, fun seven => by omega⟩
  refine (left.chained below).round ?_ (List.cons_ne_nil _ _) fun rest _ => stops_operator op _
  refine (Reads.accept? ((operatorOf_eq_some below).2 ⟨rfl, rfl⟩)).cons fun found holds => ?_
  obtain ⟨found, rfl, rfl⟩ := Option.map_eq_some_iff.1 holds
  refine (right.reads (by omega)).map ?_
  rintro _ rfl
  rfl

/-- A prefix operator wraps what is accepted behind it. -/
theorem Accepted.prefixed {depth : Nat} (op : UnaryOp) {written : List Lexeme} {e : Expr}
    (operand : Accepted depth 6 written e) :
    Accepted depth 6 (.glyph op.glyph :: written) (.unary op e) := by
  refine ⟨fun below => absurd below (by decide), fun _ p early ops leads => ?_,
    fun seven => absurd seven (by decide)⟩
  -- The operator is one more that the loop has read.
  have more : Leads p (unaryStep (primary (expressionWithin depth))) (early ++ [.glyph op.glyph])
      (fun _ => True) (ops ++ [op]) := by
    refine leads.round ?_ (List.cons_ne_nil _ _) fun _ _ => trivial
    refine (Reads.accept? (prefixOp_eq_some.2 rfl)).ends fun found holds => ?_
    obtain ⟨found, rfl, rfl⟩ := Option.map_eq_some_iff.1 holds
    exact .answer rfl
  have whole := operand.wrapped rfl more
  simpa using whole

/-- An operator that is written as a function is the one that its word stands for. -/
theorem eq_of_function? {op : UnaryOp} {word : String} (named : op.function? = some word) :
    (word = "lo" ∨ word = "hi") ∧ (if word = "lo" then .lo else .hi) = op := by
  -- Only two operators are written as functions.
  cases op with
  | lo =>
    obtain rfl := Option.some.inj named
    exact ⟨.inl rfl, rfl⟩
  | hi =>
    obtain rfl := Option.some.inj named
    exact ⟨.inr rfl, rfl⟩
  | neg => cases named
  | not => cases named

/-- A word in front of a dot or of what continues no expression is no function. -/
theorem not_function {more rest : List Lexeme}
    (dots : ∀ lexeme ∈ more.head?, lexeme = .glyph .period) (stops : Stops 7 rest) :
    (more ++ rest).head?.any (· = .glyph .leftParen) = false := by
  -- The word is followed by a dot, or by what stands behind the name.
  cases more with
  | cons lexeme more =>
    obtain rfl := dots lexeme rfl
    rfl
  | nil =>
    cases rest with
    | nil => rfl
    | cons lexeme rest => simpa using (stops lexeme rfl).2.1

/-- What is derived is accepted, with no less depth than lexemes. -/
theorem accepted_of_derives {level : Nat} {written : List Lexeme} {e : Expr}
    (derived : Derives level written e) :
    ∀ {depth : Nat}, written.length ≤ depth → Accepted depth level written e := by
  -- By induction on the derivation.
  induction derived with
  | tighter below _ ih =>
    -- A tighter expression is one of the level.
    intro depth deep
    exact (ih deep).looser below
  | operation op _ _ left right =>
    -- Both sides of an operator are shorter than the whole.
    intro depth deep
    simp only [List.length_append, List.length_cons] at deep
    exact (left (by omega)).operation op (right (by omega))
  | prefixed op _ ih =>
    intro depth deep
    exact (ih (Nat.le_of_succ_le deep)).prefixed op
  | number spelling value =>
    -- A number or a character needs no depth.
    intro depth _
    refine accepted_of_primary rfl ((Reads.next _).ends fun token same => ?_)
    simp only [same]
    exact .answer rfl
  | char c =>
    intro depth _
    refine accepted_of_primary rfl ((Reads.next _).ends fun token same => ?_)
    simp only [same]
    exact .answer rfl
  | parens _ ih =>
    -- What is in parentheses is read with one level of depth less.
    intro depth deep
    simp only [List.length_append, List.length_cons] at deep
    obtain ⟨depth, rfl⟩ : ∃ less, depth = less + 1 := Nat.exists_eq_add_one.2 (by omega)
    refine accepted_of_primary rfl ((Reads.next _).cons fun token same => ?_)
    simp only [same]
    have inner := (ih (by omega : _ ≤ depth)).reads (Nat.zero_le 6)
    refine inner.bind (fun e holds => ?_) fun rest _ => stops_rightParen 0 rest
    exact (Reads.expect .rightParen).map fun _ _ => holds
  | sizeof dotted =>
    -- A name in parentheses has no expression in it.
    intro depth _
    refine accepted_of_primary rfl ((Reads.next _).cons fun token same => ?_)
    simp only [same]
    refine (Reads.parens (Reads.name dotted) fun rest => by simp).map ?_
    rintro _ rfl
    rfl
  | function op named _ ih =>
    -- A function is told from a name by the parenthesis behind it.
    intro depth deep
    simp only [List.length_append, List.length_cons] at deep
    obtain ⟨depth, rfl⟩ : ∃ less, depth = less + 1 := Nat.exists_eq_add_one.2 (by omega)
    have inner := (ih (by omega : _ ≤ depth)).reads (Nat.zero_le 6)
    refine accepted_of_primary rfl ((Reads.next _).cons fun token same => ?_)
    simp only [same]
    refine (Reads.isAt _ true).starts (fun found ahead => ?_) fun rest _ => by simp
    obtain rfl := ahead
    obtain ⟨known, meant⟩ := eq_of_function? named
    rw [if_pos ⟨known, rfl⟩, meant]
    refine (Reads.parens inner (stops_rightParen 0)).map ?_
    rintro _ rfl
    rfl
  | name dotted =>
    -- A name is read as long as dots follow.
    intro depth _
    obtain ⟨word, more, rfl, dots, reads⟩ := Reads.nameFrom dotted
    refine accepted_of_primary rfl ((Reads.next _).cons fun token same => ?_)
    simp only [same]
    refine (Reads.isAt _ false).starts (fun found ahead => ?_) fun rest => not_function dots
    obtain rfl := ahead
    rw [if_neg (by simp)]
    refine (reads.follows fun rest stops ends => ?_).map ?_
    · exact (stops _ ends).1 rfl
    · rintro _ rfl
      rfl

/-- What is derived is read, where nothing continues it. -/
theorem Reads.expression {written : List Lexeme} {e : Expr} (derived : Derives 0 written e) :
    Reads Parse.expression written (Stops 0) (· = e) := by
  -- An expression has a depth of as many tokens as there are.
  intro tokens rest last same plain stops
  have deep : written.length ≤ (tokens ++ rest).length := by
    rw [← same, lexemes, List.length_map, List.length_append]
    omega
  exact (accepted_of_derives derived deep).reads (Nat.zero_le 6) last same plain stops

/-- What is read as an expression is derived. -/
theorem Yields.expression : Yields Parse.expression (Derives 0) := by
  -- The bound on the depth is more than the tokens that are left.
  intro cursor after e plain ran
  exact expressionWithin (cursor.rest.length + 1) plain ran

/-- The expression parser accepts exactly its grammar: what it reads derives the tree it answers,
and what derives a tree is read as that tree, up to a token that is neither a binary operator nor a
dot nor an opening parenthesis. -/
theorem expression_accepts_exactly_derived :
    (∀ (cursor after : Cursor) (tree : Expr), Uncommented cursor.rest →
      expression cursor = .ok tree after →
        ∃ read, cursor.rest = read ++ after.rest ∧ Derives 0 (lexemes read) tree) ∧
    ∀ (tokens rest : List Token) (last : Pos) (tree : Expr), Uncommented (tokens ++ rest) →
      Derives 0 (lexemes tokens) tree →
      (∀ token ∈ rest.head?, (∀ op : BinaryOp, token.lexeme ≠ .glyph op.glyph) ∧
        token.lexeme ≠ .glyph .period ∧ token.lexeme ≠ .glyph .leftParen) →
        ∃ last', expression ⟨tokens ++ rest, last⟩ = .ok tree ⟨rest, last'⟩ := by
  -- One direction is what the parser yields, the other one what it reads.
  refine ⟨fun cursor after tree plain ran => Yields.expression plain ran, ?_⟩
  intro tokens rest last tree plain derived ends
  have stops : Stops 0 (lexemes rest) := by
    intro lexeme first
    cases rest with
    | nil => cases first
    | cons token rest =>
      cases first
      obtain ⟨noOp, noDot, noParen⟩ := ends token rfl
      exact ⟨noDot, noParen, fun op _ => noOp op⟩
  obtain ⟨_, last', rfl, ran⟩ := Reads.expression derived last rfl plain stops
  exact ⟨last', ran⟩

/-- Two differences are grouped to the left, up to a semicolon. -/
theorem expression_accepts_differences :
    let token : Lexeme → Token := fun lexeme => ⟨lexeme, {}⟩
    let tokens := [.number "1" 1, .glyph .minus, .ident "x", .glyph .minus, .number "2" 2].map token
    let rest := [token (.glyph .semicolon)]
    let tree := .binary .sub (.binary .sub (.number 1) (.name "x")) (.number 2)
    (∃ last, expression ⟨tokens ++ rest, {}⟩ = .ok tree ⟨rest, last⟩) ∧
      ∃ read, tokens ++ rest = read ++ rest ∧ Derives 0 (lexemes read) tree := by
  -- The differences are derived rule by rule.
  intro token tokens rest tree
  have plain : Uncommented (tokens ++ rest) := by
    simp [Uncommented, tokens, rest, token, Lexeme.isComment]
  have derived : Derives 0 (lexemes tokens) tree := by
    have one : Derives 4 [.number "1" 1] (.number 1) :=
      (Derives.number "1" 1).loosen (by omega) (by omega)
    have x : Derives 5 [.ident "x"] (.name "x") :=
      (Derives.name (.word "x")).loosen (by omega) (by omega)
    have two : Derives 5 [.number "2" 2] (.number 2) :=
      (Derives.number "2" 2).loosen (by omega) (by omega)
    have difference := Derives.operation .sub (Derives.operation .sub one x) two
    exact difference.loosen (by decide) (by decide)
  have ran := expression_accepts_exactly_derived.2 tokens rest {} tree plain derived
    (by
      rintro _ ⟨⟩
      refine ⟨fun op => ?_, by decide, by decide⟩
      cases op <;> decide)
  obtain ⟨last, read⟩ := ran
  exact ⟨⟨last, read⟩, expression_accepts_exactly_derived.1 _ _ _ plain read⟩

end Parse

end CrossAsm

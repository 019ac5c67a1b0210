import CrossAsm.Proofs.Parser.Grammar
import CrossAsm.Proofs.Parser.Scanning

/-! Expressions as they are shown read back as what they fold to. -/

namespace CrossAsm

open Token (lexemes Uncommented)
open Text (Apart Uncommenting)

/-- A word that is no keyword. -/
def IsIdentifier (word : String) : Prop :=
  word.toList.head?.any Lexeme.isWordStart = true ∧ word.toList.all Lexeme.isWordPart = true ∧
    Keyword.ofSpelling? word = none

instance (word : String) : Decidable (IsIdentifier word) :=
  inferInstanceAs (Decidable (_ ∧ _ ∧ _))

/-- Identifiers joined by dots. -/
inductive IsPath : String → Prop
  | word {word : String} (identifier : IsIdentifier word) : IsPath word
  | member {path word : String} (owner : IsPath path) (identifier : IsIdentifier word) :
      IsPath (path ++ "." ++ word)

namespace Expr

/-- An expression of names that can be written, with no bound symbol and no literal that has no
opposite. -/
def Writable : Expr → Prop
  | .number value => Int64.minValue < value
  | .name path => IsPath path
  | .ref _ => False
  | .sizeof type => IsPath type
  | .unary _ e => Writable e
  | .binary _ l r => Writable l ∧ Writable r

/-- The expression as its text spells it: a negative literal is the opposite of a positive one. -/
def spelled : Expr → Expr
  | .number value => if value < 0 then .unary .neg (.number (-value)) else .number value
  | .unary op e => .unary op (spelled e)
  | .binary op l r => .binary op (spelled l) (spelled r)
  | e => e

/-- An expression folds as its text does. -/
theorem fold_spelled (e : Expr) : e.spelled.fold = e.fold := by
  -- By induction on the expression, of which only a literal is spelled in another way.
  induction e with
  | number value =>
    unfold spelled
    split
    · -- The opposite of the opposite is the literal.
      show Except.ok (Expr.number (- -value)) = .ok (.number value)
      rw [Int64.neg_neg]
    · rfl
  | name => rfl
  | ref => rfl
  | sizeof => rfl
  | unary op e ih => rw [spelled, fold, fold, ih]
  | binary op l r left right => rw [spelled, fold, fold, left, right]

end Expr

/-! ### Text of an expression -/

/-- Text that opens with a character that makes no comment of a slash before it. -/
def Opens (text : List Char) : Prop :=
  ∃ c more, text = c :: more ∧ c ≠ '/' ∧ c ≠ '*'

/-- Text that opens so may follow a slash. -/
theorem Opens.uncommenting {text : List Char} (opens : Opens text) (rest : List Char) :
    Uncommenting (text ++ rest) := by
  -- Its first character is neither of the marks that a slash makes a comment with.
  obtain ⟨c, more, rfl, marks⟩ := opens
  rintro d ⟨⟩
  exact marks

/-- How text opens does not depend on what follows. -/
theorem Opens.append {text : List Char} (opens : Opens text) (rest : List Char) :
    Opens (text ++ rest) := by
  -- The first character is in the text already.
  obtain ⟨c, more, rfl, marks⟩ := opens
  exact ⟨c, more ++ rest, rfl, marks⟩

/-- A word opens no comment. -/
theorem IsIdentifier.opens {word : String} (identifier : IsIdentifier word) :
    Opens word.toList := by
  -- It starts with a letter or an underscore.
  obtain ⟨c, first, start⟩ := (Option.any_eq_true ..).1 identifier.1
  obtain ⟨more, written⟩ := List.head?_eq_some_iff.1 first
  refine ⟨c, more, written, ?_, ?_⟩ <;> rintro rfl <;> exact absurd start (by decide)

/-- An identifier is scanned as one. -/
theorem IsIdentifier.spells {word : String} (identifier : IsIdentifier word) :
    Spells word.toList [.ident word] Apart := by
  -- It is written as a word, and is no reserved one.
  have spells := Spells.word identifier.1 (List.all_eq_true.1 identifier.2.1)
  rwa [Lexeme.ofWord, identifier.2.2] at spells

/-- Text that starts with a glyph is apart from what comes before it. -/
theorem apart_glyph {c : Char} {glyph : Glyph} (known : Lexeme.glyph? c = some glyph)
    (rest : List Char) : Apart (c :: rest) := by
  -- No glyph is a character of a word or a number.
  rintro d ⟨⟩
  unfold Lexeme.glyph? at known
  split at known
  case h_24 => cases known
  all_goals decide

/-- A path is scanned as the dotted name that it is. -/
theorem IsPath.spells {path : String} (isPath : IsPath path) :
    ∃ written, Spells path.toList written Apart ∧ Dotted written path ∧ Opens path.toList := by
  -- By induction on the path, each member of which comes behind a dot.
  induction isPath with
  | word identifier => exact ⟨_, identifier.spells, .word _, identifier.opens⟩
  | member _ identifier ih =>
    obtain ⟨written, owner, dotted, opens⟩ := ih
    have dot : Spells ".".toList [.glyph .period] fun _ => True :=
      .glyph rfl (by decide)
    have member := dot.append identifier.spells fun _ _ => trivial
    rw [String.toList_append, String.toList_append, List.append_assoc]
    refine ⟨_, ?_, dotted.member _, opens.append _⟩
    exact owner.append member fun rest _ => apart_glyph rfl _

/-- A sign is scanned as the glyph of its operator. -/
theorem BinaryOp.spells (op : BinaryOp) : Spells op.sign.toList [.glyph op.glyph] Uncommenting := by
  -- Three signs have a longer lexeme or a comment to be told from.
  cases op with
  | div =>
    -- The only sign that could start a comment.
    show Spells ['/'] [.glyph .slash] Uncommenting
    refine .lexeme (by decide) (by decide) fun rest follows => ⟨?_, fun _ => follows⟩
    exact Lexeme.scan_glyph rfl (by decide) rest
  | shl =>
    show Spells ['<', '<'] [.glyph .doubleLess] Uncommenting
    exact .lexeme (by decide) (by decide) fun rest _ => ⟨rfl, nofun⟩
  | shr =>
    show Spells ['>', '>'] [.glyph .doubleGreater] Uncommenting
    exact .lexeme (by decide) (by decide) fun rest _ => ⟨rfl, nofun⟩
  | _ => exact (Spells.glyph rfl (by decide)).follows fun _ _ => trivial

/-- A sign is apart from what comes before it. -/
theorem BinaryOp.apart (op : BinaryOp) (rest : List Char) : Apart (op.sign.toList ++ rest) := by
  -- No sign starts with a character that goes on a word.
  cases op <;> rintro c ⟨⟩ <;> decide

namespace Expr

/-- The text of a natural number in decimal opens with a digit. -/
theorem opens_repr (n : Nat) : Opens n.repr.toList := by
  -- The first character is a digit.
  rw [Nat.toList_repr]
  obtain ⟨c, more, written⟩ := List.exists_cons_of_ne_nil (@Nat.toDigits_ne_nil n 10)
  have digit : c.isDigit = true :=
    Lexeme.isDigit_of_mem_toDigits c (written ▸ List.mem_cons_self ..)
  refine ⟨c, more, written, ?_, ?_⟩ <;> rintro rfl <;> exact absurd digit (by decide)

/-- A natural number that a value holds. -/
theorem exists_nat_of_nonneg {value : Int64} (sign : 0 ≤ value.toInt) :
    ∃ n : Nat, n < 0x8000000000000000 ∧ value.toInt = n ∧ value = Int64.ofNat n := by
  -- The value as a natural number is below half of the words.
  have range := value.toInt_lt
  refine ⟨value.toInt.toNat, by omega, by omega, ?_⟩
  rw [← Int64.ofInt_eq_ofNat, Int.toNat_of_nonneg sign, Int64.ofInt_toInt]

/-- The digits of a number from ten on fill its text. -/
theorem hex_eq_hexDigits {n : Nat} (positive : 0 < n) :
    (Text.hex 1 n).toList = Text.hexDigits n := by
  -- A number that is not zero has a digit, so that nothing is filled in.
  have some : 1 ≤ (Text.hexDigits n).length := by
    rw [Text.hexDigits, if_neg (Nat.ne_of_gt positive), List.length_append]
    exact Nat.le_add_left 1 _
  rw [Text.hex, String.toList_ofList, Nat.max_self, Nat.sub_eq_zero_of_le some]
  rfl

/-- A literal is spelled as itself, or as the opposite of its opposite. -/
theorem spells_number {value : Int64} (least : Int64.minValue < value) :
    ∃ written, Spells (renderNumber value).toList written Apart ∧
      Derives 6 written (Expr.number value).spelled ∧ Opens (renderNumber value).toList := by
  -- The sign is spelled as an operator, and the digits as a literal.
  have least' : -2 ^ 63 < value.toInt := by
    rwa [Int64.lt_iff_toInt_lt, Int64.toInt_minValue] at least
  rw [spelled, renderNumber]
  by_cases negative : value < 0
  · -- A minus and the decimal digits of the opposite.
    have below : value.toInt < 0 := Int64.lt_iff_toInt_lt.1 negative
    have opposite : (-value).toInt = -value.toInt := by
      rw [Int64.toInt_neg, Int.bmod_eq_of_le (by omega) (by omega)]
    obtain ⟨n, small, same, holds⟩ := exists_nat_of_nonneg (by omega : 0 ≤ (-value).toInt)
    obtain ⟨spelling, digits⟩ := Spells.decimal small
    have minus : Spells "-".toList [.glyph .minus] fun _ => True := .glyph rfl (by decide)
    rw [if_pos negative, if_neg (by omega), Int.toString_eq_repr, Int.repr_eq_if,
      if_neg (by omega), show (-value.toInt).toNat = n by omega, String.toList_append, holds]
    refine ⟨_, minus.append digits fun _ _ => trivial, ?_, ⟨'-', _, rfl, by decide⟩⟩
    exact .prefixed .neg (.tighter (by decide) (.number spelling _))
  · -- From zero on the value is the number itself.
    have above : 0 ≤ value.toInt := by
      rw [Int64.lt_iff_toInt_lt] at negative
      exact Int.not_lt.1 negative
    obtain ⟨n, small, same, holds⟩ := exists_nat_of_nonneg above
    rw [if_neg negative, same]
    split
    · -- A large number is written in hexadecimal digits.
      rename_i large
      obtain ⟨spelling, digits⟩ := Spells.hexadecimal (by omega : 0 < n) small
      have unsigned : value.toUInt64.toNat = n := by
        rw [Int64.toNat_toUInt64_of_le (Int64.le_iff_toInt_le.2 above), Int64.toNatClampNeg, same,
          Int.toNat_natCast]
      rw [Text.hexInt64, unsigned, String.toList_append, hex_eq_hexDigits (by omega), holds]
      refine ⟨_, digits, .tighter (by decide) (.number spelling _), ⟨'0', _, rfl, by decide⟩⟩
    · -- A small one is written in decimal digits.
      obtain ⟨spelling, digits⟩ := Spells.decimal small
      rw [Int.toString_eq_repr, Int.repr_eq_if, if_pos (by omega), Int.toNat_natCast, holds]
      exact ⟨_, digits, .tighter (by decide) (.number spelling _), opens_repr n⟩

/-- Text in parentheses. -/
theorem spells_parens {text : List Char} {written : List Lexeme}
    (inner : Spells text written Apart) :
    Spells ('(' :: (text ++ [')'])) (.glyph .leftParen :: (written ++ [.glyph .rightParen]))
      fun _ => True := by
  -- Parentheses are glyphs, which need nothing of what is around them.
  have left : Spells ['('] [.glyph .leftParen] fun _ => True := .glyph rfl (by decide)
  have right : Spells [')'] [.glyph .rightParen] fun _ => True := .glyph rfl (by decide)
  exact left.append (inner.append right fun rest _ => apart_glyph rfl rest) fun _ _ => trivial

/-- Text in parentheses after a word. -/
theorem spells_call {word : String} {lexeme : Lexeme} {text : List Char} {written : List Lexeme}
    (head : Spells word.toList [lexeme] Apart) (inner : Spells text written Apart) :
    Spells (word.toList ++ '(' :: (text ++ [')']))
      (lexeme :: .glyph .leftParen :: (written ++ [.glyph .rightParen])) Apart :=
  head.append ((spells_parens inner).follows fun _ _ => trivial) fun _ _ => apart_glyph rfl _

/-- Text of an expression after the mark of an operator. -/
theorem spells_prefixed {c : Char} {text : List Char} {written : List Lexeme} {e : Expr}
    (op : UnaryOp) (known : Lexeme.glyph? c = some op.glyph)
    (single : c ≠ '<' ∧ c ≠ '>' ∧ c ≠ '/' ∧ c ≠ '*') (spells : Spells text written Apart)
    (derived : Derives 6 written e) :
    ∃ whole, Spells (c :: text) whole Apart ∧ Derives 6 whole (.unary op e) ∧
      Opens (c :: text) := by
  -- The mark is one of a single character, so that it ends before the text.
  have mark : Spells [c] [.glyph op.glyph] fun _ => True :=
    .glyph known ⟨single.1, single.2.1, single.2.2.1⟩
  exact ⟨_, mark.append spells fun _ _ => trivial, derived.prefixed op, c, text, rfl, single.2.2⟩

/-- Text of an expression in parentheses after the word of an operator. -/
theorem spells_function {word : String} {text : List Char} {written : List Lexeme} {e : Expr}
    (op : UnaryOp) (named : op.function? = some word) (identifier : IsIdentifier word)
    (spells : Spells text written Apart) (derived : Derives 6 written e) :
    ∃ whole, Spells (word.toList ++ '(' :: (text ++ [')'])) whole Apart ∧
      Derives 6 whole (.unary op e) ∧ Opens (word.toList ++ '(' :: (text ++ [')'])) := by
  refine ⟨_, spells_call identifier.spells spells, ?_, identifier.opens.append _⟩
  -- What stands in parentheses may be as loose as any expression.
  have loose := derived.loosen (by decide) (Nat.zero_le 6)
  exact .tighter (by decide) (.function op named loose)

/-- The text of an expression derives it, as that text spells it. -/
theorem spells_render {e : Expr} (writable : e.Writable) :
    ∃ written, Spells e.render.toList written Apart ∧ Derives 6 written e.spelled ∧
      Opens e.render.toList := by
  -- By induction on the expression, whose text is put together of those of its parts.
  induction e with
  | number value => exact spells_number writable
  | name path =>
    -- A name is written as it is.
    obtain ⟨written, spells, dotted, opens⟩ := IsPath.spells writable
    exact ⟨written, spells, .tighter (by decide) (.name dotted), opens⟩
  | ref => exact writable.elim
  | sizeof type =>
    -- The size of a type is written like a call.
    obtain ⟨written, spells, dotted, -⟩ := IsPath.spells writable
    have word : Spells "sizeof".toList [.keyword .sizeof] Apart :=
      .word (by decide) (List.all_eq_true.1 (by decide))
    rw [render, String.toList_append, String.toList_append, List.append_assoc]
    refine ⟨_, spells_call word spells, ?_, 's', _, rfl, by decide⟩
    exact .tighter (by decide) (.sizeof dotted)
  | unary op e ih =>
    -- An operator in front is a mark, or a word that is called.
    obtain ⟨written, spells, derived, -⟩ := ih writable
    cases op with
    | neg =>
      rw [render, String.toList_append]
      exact spells_prefixed .neg rfl (by decide) spells derived
    | not =>
      rw [render, String.toList_append]
      exact spells_prefixed .not rfl (by decide) spells derived
    | lo =>
      rw [render, String.toList_append, String.toList_append, List.append_assoc]
      exact spells_function .lo rfl (by decide) spells derived
    | hi =>
      rw [render, String.toList_append, String.toList_append, List.append_assoc]
      exact spells_function .hi rfl (by decide) spells derived
  | binary op l r ihLeft ihRight =>
    -- An operation is written in parentheses, with the sign between its sides.
    obtain ⟨lefts, spellsLeft, derivedLeft, -⟩ := ihLeft writable.1
    obtain ⟨rights, spellsRight, derivedRight, opens⟩ := ihRight writable.2
    have tight : op.level ≤ 5 := by
      cases op <;> decide
    have operation : Derives op.level (lefts ++ ([.glyph op.glyph] ++ rights))
        (.binary op l.spelled r.spelled) :=
      .operation op (derivedLeft.loosen (by decide) (by omega))
        (derivedRight.loosen (by decide) (by omega))
    have inner := spellsLeft.append
      (op.spells.append spellsRight fun rest _ => opens.uncommenting rest)
      fun rest _ => by
        rw [List.append_assoc]
        exact op.apart _
    have text : (Expr.binary op l r).render.toList =
        '(' :: (l.render.toList ++ (op.sign.toList ++ r.render.toList) ++ [')']) := by
      simp [render]
    rw [text]
    refine ⟨_, (spells_parens inner).follows fun _ _ => trivial, ?_, '(', _, rfl, by decide⟩
    exact .tighter (by decide) (.parens (operation.loosen (by omega) (Nat.zero_le _)))

end Expr

/-! ### Reading back -/

/-- A name has no comments. -/
theorem Dotted.uncommented {written : List Lexeme} {path : String} (dotted : Dotted written path) :
    ∀ lexeme ∈ written, lexeme.isComment = false := by
  -- By induction on the parts of the name: words and dots are no comments.
  induction dotted with
  | word => simp [Lexeme.isComment]
  | member _ _ ih => simpa [Lexeme.isComment, or_imp, forall_and] using ih

/-- What derives an expression has no comments. -/
theorem Derives.uncommented {level : Nat} {written : List Lexeme} {e : Expr}
    (derived : Derives level written e) : ∀ lexeme ∈ written, lexeme.isComment = false := by
  -- By induction on the derivation.
  induction derived with
  | tighter _ _ ih => exact ih
  | operation _ _ _ left right =>
    simpa [Lexeme.isComment, or_imp, forall_and] using ⟨left, right⟩
  | prefixed _ _ ih => simpa [Lexeme.isComment] using ih
  | number => simp [Lexeme.isComment]
  | char => simp [Lexeme.isComment]
  | parens _ ih => simpa [Lexeme.isComment, or_imp, forall_and] using ih
  | sizeof dotted => simpa [Lexeme.isComment, or_imp, forall_and] using dotted.uncommented
  | function _ _ _ ih => simpa [Lexeme.isComment, or_imp, forall_and] using ih
  | name dotted => exact dotted.uncommented

namespace Parse

/-- An expression that is read is folded where it started. -/
theorem expr_of_expression {cursor after : Cursor} {e : Expr}
    (ran : expression cursor = .ok e after) : ∃ pos, expr cursor = foldAt pos e after := by
  -- The place is looked up first, which reads nothing.
  have look : ∃ pos, here cursor = .ok pos cursor := by
    unfold here
    rw [bind_of_ok (show peek? cursor = .ok cursor.peek? cursor from rfl)]
    cases cursor.peek? with
    | none => exact ⟨_, rfl⟩
    | some token => exact ⟨_, rfl⟩
  obtain ⟨pos, looked⟩ := look
  refine ⟨pos, ?_⟩
  rw [expr, bind_of_ok looked, bind_of_ok ran]

/-- An expression as it is shown reads back as what it folds to, or fails as folding it does, and
all of its text is read either way. -/
theorem expr_reads_rendered {e : Expr} (writable : e.Writable) (file : String) (row : Nat)
    (start : Pos) :
    ∃ newline last, newline.lexeme = .newline ∧
      (Token.ofText file row e.render).getLast? = some newline ∧
      (∀ folded, e.fold = .ok folded →
        expr ⟨Token.ofText file row e.render, start⟩ = .ok folded ⟨[newline], last⟩) ∧
      ∀ cause, e.fold = .error cause → ∃ pos,
        expr ⟨Token.ofText file row e.render, start⟩ =
          .error (.eval pos cause) ⟨[newline], last⟩ := by
  obtain ⟨written, spells, derived, c, more, opens, -⟩ := Expr.spells_render writable
  have some : e.render.toList ≠ [] := opens ▸ List.cons_ne_nil c more
  have atEnd : Apart [] := nofun
  obtain ⟨tokens, newline, text, rfl, isNewline⟩ := spells.ofText some atEnd file row
  -- Neither the expression nor the end of the line has a comment.
  have plain : Uncommented (tokens ++ [newline]) := by
    intro token inside
    rcases List.mem_append.1 inside with early | late
    · exact derived.uncommented _ (List.mem_map_of_mem early)
    · obtain rfl := List.mem_singleton.1 late
      rw [isNewline]
      rfl
  -- The end of the line continues no expression.
  have stops : Stops 0 (lexemes [newline]) := by
    rintro _ ⟨⟩
    simp [isNewline]
  -- The whole text is one expression, and only its folding is left to do.
  obtain ⟨_, last, rfl, ran⟩ :=
    Reads.expression (derived.loosen (by decide) (Nat.zero_le 6)) start rfl plain stops
  obtain ⟨pos, folds⟩ := expr_of_expression ran
  refine ⟨newline, last, isNewline, by simp [text], fun folded same => ?_, fun cause same => ?_⟩
  · rw [text, folds, foldAt, Expr.fold_spelled, same]
    rfl
  · refine ⟨pos, ?_⟩
    rw [text, folds, foldAt, Expr.fold_spelled, same]
    rfl

/-- The difference of a number and an opposite reads back, two minus signs and all. -/
theorem expr_reads_rendered_difference :
    let e : Expr := .binary .sub (.number 16) (.unary .neg (.name "x.y"))
    e.render = "(0x10--x.y)" ∧ e.fold = .ok e ∧
      ∃ newline last, expr ⟨Token.ofText "main" 0 "(0x10--x.y)", {}⟩ = .ok e ⟨[newline], last⟩ := by
  -- The text is evaluated, and the theorem reads it back.
  intro e
  have rendered : e.render = "(0x10--x.y)" := by
    decide +kernel
  have path : IsPath ("x" ++ "." ++ "y") := .member (.word (by decide)) (by decide)
  have writable : e.Writable := ⟨(by decide : Int64.minValue < 16), path⟩
  obtain ⟨newline, last, -, -, reads, -⟩ := expr_reads_rendered writable "main" 0 {}
  rw [rendered] at reads
  exact ⟨rendered, rfl, newline, last, reads e rfl⟩

end Parse

end CrossAsm

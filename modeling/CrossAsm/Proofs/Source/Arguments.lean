import Mathlib.Data.List.TakeWhile
import CrossAsm.Proofs.Folding
import CrossAsm.Proofs.Parser.Coupling
import CrossAsm.Source

/-! What the arguments of a directive are blamed for. Their tokens end with the newline of their
line, which no argument reads over. So each error points at one of them, a token that cannot be read
or the first one of an expression, unless there are none. -/

namespace CrossAsm

/-- Nothing is replaced without arguments. -/
theorem Expr.substitute_nil (e : Expr) : e.substitute [] = e := by
  -- By induction on the expression.
  induction e with
  | unary op e ih => rw [substitute, ih]
  | binary op l r left right => rw [substitute, left, right]
  | _ => rfl

/-! ### Blame -/

/-- An expression that is written among tokens from one of them on. -/
def ExpressionAt (tokens : List Token) (token : Token) (e : Expr) : Prop :=
  ∃ cursor after, cursor.rest <:+ tokens ∧ cursor.peek? = some token ∧
    Parse.expression cursor = .ok e after

/-- The token that an error points at: one that cannot be read, or the first of an expression that
has no value, is no number, or is a number that is out of range. -/
inductive Blames (tokens : List Token) (token : Token) : Error → Prop
  | unreadable (inside : token ∈ tokens) (visible : token.lexeme.isComment = false) :
    Blames tokens token (.unexpectedToken token.pos token.lexeme.render)
  | valueless {e : Expr} {cause : EvalError} (written : ExpressionAt tokens token e)
    (failed : e.fold = .error cause) : Blames tokens token (.eval token.pos cause)
  | unknown {e folded : Expr} (written : ExpressionAt tokens token e) (folds : e.fold = .ok folded)
    (noNumber : folded.number? = none) :
    Blames tokens token (.notAConstant token.pos folded.render)
  | negative {e : Expr} {value : Int64} (written : ExpressionAt tokens token e)
    (folds : e.fold = .ok (.number value)) (below : value.toInt < 0) :
    Blames tokens token (.outOfRange token.pos value)

namespace Parse

open Coupling (Any)

variable {α β : Type} {cursor after : Cursor}

/-! ### Constants -/

/-- Where the upcoming token stands, if there is one. -/
def ahead (cursor : Cursor) : Pos :=
  (cursor.peek?.map (·.pos)).getD {}

/-- Nothing follows a step that fails. -/
theorem bind_of_error {p : Parse α} {k : α → Parse β} {e : Error}
    (failed : p cursor = .error e after) : (p >>= k) cursor = .error e after := by
  -- The error is handed on.
  show EStateM.bind p k cursor = _
  rw [EStateM.bind, failed]

/-- Looking where the upcoming token stands. -/
theorem here_eq (cursor : Cursor) : here cursor = .ok (ahead cursor) cursor := by
  -- The cursor stays, and its last position is taken if no token is left.
  have seen : Parse.peek? cursor = .ok cursor.peek? cursor := rfl
  rw [here, bind_of_ok seen, ahead]
  cases cursor.peek? <;> rfl

/-- What an expression is as a constant, written at a position. -/
def constantAt (pos : Pos) (e : Expr) : Except Error Int64 :=
  match e.fold with
  | .error cause => .error (.eval pos cause)
  | .ok folded =>
    match folded.number? with
    | some value => .ok value
    | none => .error (.notAConstant pos folded.render)

/-- A constant is an expression that folds to a number. -/
theorem const_of_expression {e : Expr} (read : expression cursor = .ok e after) :
    const cursor =
      match constantAt (ahead cursor) e with
      | .ok value => .ok value after
      | .error e => .error e after := by
  -- The place is looked up, the expression read, and then folded.
  have folding : expr cursor = foldAt (ahead cursor) e after := by
    rw [expr, bind_of_ok (here_eq cursor), bind_of_ok read]
  rw [const, constWith, bind_of_ok (here_eq cursor), constantAt]
  -- The expression is folded twice, which makes no difference once it could be.
  cases folds : e.fold with
  | error cause =>
    have failed : expr cursor = .error (.eval (ahead cursor) cause) after := by
      rw [folding, foldAt, folds]
      rfl
    rw [bind_of_error failed]
  | ok folded =>
    have done : expr cursor = .ok folded after := by
      rw [folding, foldAt, folds]
      rfl
    have again : foldAt (ahead cursor) (folded.substitute []) after = .ok folded after := by
      rw [Expr.substitute_nil, foldAt, Expr.fold_again folds]
      rfl
    rw [bind_of_ok done, List.map_nil, bind_of_ok again]
    cases number : folded.number? <;> simp only [number] <;> rfl

/-- Without an expression there is no constant. -/
theorem const_of_error {e : Error} (failed : expression cursor = .error e after) :
    const cursor = .error e after := by
  -- The expression is read first on the way to the constant.
  have inner : expr cursor = .error e after := by
    rw [expr, bind_of_ok (here_eq cursor), bind_of_error failed]
  rw [const, constWith, bind_of_ok (here_eq cursor), bind_of_error inner]

/-! ### Arguments -/

variable {tokens : List Token} {other : Error → Prop} {n : Nat}

/-- A cursor in front of tokens that are left of a line. Only a line that has none leaves none. -/
structure InLine (tokens : List Token) (n : Nat) (cursor : Cursor) : Prop where
  /-- The tokens are the last of the line. -/
  part : cursor.rest <:+ tokens
  /-- Their number. -/
  count : cursor.rest.length = n
  /-- With none left, nothing was read. -/
  unread : cursor.rest = [] → tokens = [] ∧ cursor.last = {}

/-- An error that is another one, points at a token of a line, or is its end if it has none. -/
def Blamed (tokens : List Token) (other : Error → Prop) (e : Error) : Prop :=
  other e ∨ (tokens = [] ∧ e = .unexpectedEnd {}) ∨ ∃ token, Blames tokens token e

/-- The upcoming token is no comment, and behind those that are. -/
theorem split_of_next? {token : Token} (next : cursor.next? = some (token, after)) :
    ∃ skipped, cursor.rest = skipped ++ token :: after.rest ∧ token.lexeme.isComment = false := by
  -- The comments in front are what is skipped.
  have split := List.takeWhile_append_dropWhile (p := fun token : Token => token.lexeme.isComment)
    (l := cursor.rest)
  have head := List.head?_dropWhile_not (fun token : Token => token.lexeme.isComment) cursor.rest
  unfold Cursor.next? at next
  cases visible : cursor.rest.dropWhile fun token => token.lexeme.isComment with
  | nil =>
    rw [visible] at next
    cases next
  | cons first rest =>
    rw [visible] at next split head
    cases next
    exact ⟨_, split.symm, head⟩

/-- A line that ends with a newline and goes on with no token has none. -/
theorem InLine.rest_eq_nil (ended : ∀ eol ∈ tokens.getLast?, eol.lexeme = .newline)
    (inLine : InLine tokens n cursor) (none : cursor.next? = none) : cursor.rest = [] := by
  -- With a token left there would be a newline, and that is no comment.
  obtain ⟨read, same⟩ := inLine.part
  cases newline : cursor.rest.getLast? with
  | none => exact List.getLast?_eq_none_iff.1 newline
  | some eol =>
    -- The newline is no comment, so it would come next.
    have comments : ∀ token ∈ cursor.rest, token.lexeme.isComment = true := by
      refine List.dropWhile_eq_nil_iff.1 ?_
      cases visible : cursor.rest.dropWhile fun token => token.lexeme.isComment with
      | nil => rfl
      | cons first rest =>
        rw [Cursor.next?, visible] at none
        cases none
    have silent := comments eol (List.mem_of_getLast? newline)
    rw [ended eol (by rw [← same, List.getLast?_append, newline]; rfl)] at silent
    cases silent

/-- What a cursor sees of a line that ends with a newline. -/
theorem InLine.sight (ended : ∀ eol ∈ tokens.getLast?, eol.lexeme = .newline)
    (inLine : InLine tokens n cursor) :
    Sight (fun n c c' => c = c' ∧ InLine tokens n c) (fun e _ _ => Blamed tokens other e) True False
      n cursor cursor := by
  -- Nothing is left, or the upcoming token is one of the line.
  cases next : cursor.next? with
  | none =>
    obtain ⟨empty, start⟩ := inLine.unread (inLine.rest_eq_nil ended next)
    exact .nothing next next (.inr (.inl ⟨empty, by rw [start]⟩))
  | some found =>
    obtain ⟨token, after⟩ := found
    obtain ⟨skipped, split, visible⟩ := split_of_next? next
    obtain ⟨read, same⟩ := inLine.part
    have count := inLine.count
    rw [split] at same count
    have refused : Blamed tokens other (.unexpectedToken token.pos token.lexeme.render) :=
      .inr (.inr ⟨token, .unreadable (by simp [← same]) visible⟩)
    refine .token next next refused refused ?_
    -- The last token of the line is its newline, which may only be refused.
    by_cases last : after.rest = []
    · refine .inr ⟨trivial, ended token ?_⟩
      rw [← same, last]
      simp
    · have inside : after.rest <:+ tokens := ⟨read ++ skipped ++ [token], by simp [← same]⟩
      refine .inl ⟨⟨after.rest.length, ?_, rfl, inside, rfl, fun none => absurd none last⟩,
        False.elim⟩
      rw [List.length_append, List.length_cons] at count
      omega

/-- A run over the tokens of a line beside itself. It fails with an error that points at one of
them, or with another one of a class. -/
def overLine (other : Error → Prop) (ended : ∀ eol ∈ tokens.getLast?, eol.lexeme = .newline) :
    Coupling where
  joined n c c' := c = c' ∧ InLine tokens n c
  fails e _ _ := Blamed tokens other e
  oneLine := True
  flat := False
  sight := by
    rintro n c _ ⟨rfl, inLine⟩
    exact inLine.sight ended
  last joined := congrArg Cursor.last joined.1
  skips across := absurd trivial across
  few := by
    rintro n c _ ⟨rfl, inLine⟩
    exact ⟨Nat.le_of_eq inLine.count.symm, Nat.le_of_eq inLine.count.symm⟩

variable {bound : Nat}

/-- An expression that is read starts with a token, or there is an error in place of it. -/
theorem expression_inLine (other : Error → Prop)
    (ended : ∀ eol ∈ tokens.getLast?, eol.lexeme = .newline) (inLine : InLine tokens n cursor) :
    (∃ e after token m, expression cursor = .ok e after ∧ InLine tokens m after ∧ m ≤ n ∧
      ahead cursor = token.pos ∧ ExpressionAt tokens token e) ∨
    ∃ e after, expression cursor = .error e after ∧ Blamed tokens other e := by
  -- The run goes along with itself, and so stays in the line.
  have ends : (overLine other ended).Ends n Any (expression cursor) (expression cursor) :=
    expression_agree.any ⟨rfl, inLine⟩ (Nat.lt_succ_self n)
  cases read : expression cursor with
  | error e after =>
    rw [read] at ends
    cases ends with
    | error blamed => exact .inr ⟨e, after, rfl, blamed⟩
  | ok e after =>
    rw [read] at ends
    cases ends with
    | @ok _ m _ _ _ joined count =>
      cases seen : cursor.peek? with
      | some token =>
        refine .inl ⟨e, after, token, m, rfl, joined.2, by omega, by simp [ahead, seen], ?_⟩
        exact ⟨cursor, after, inLine.part, seen, read⟩
      | none =>
        -- Without a token the line is read to its end, and there is no expression.
        have nothing : cursor.next? = none := Option.map_eq_none_iff.1 seen
        have empty := inLine.rest_eq_nil ended nothing
        obtain ⟨rest, last⟩ := cursor
        obtain rfl : rest = [] := empty
        cases read

/-- What keeps an expression from being a constant is blamed on its first token. -/
theorem blames_of_constantAt {token : Token} {e : Expr} {failure : Error}
    (written : ExpressionAt tokens token e) (failed : constantAt token.pos e = .error failure) :
    Blames tokens token failure := by
  -- The expression does not fold, or not to a number.
  unfold constantAt at failed
  cases folds : e.fold with
  | error cause =>
    rw [folds] at failed
    cases failed
    exact .valueless written folds
  | ok folded =>
    rw [folds] at failed
    cases number : folded.number? with
    | none =>
      simp only [number] at failed
      cases failed
      exact .unknown written folds number
    | some value =>
      simp only [number] at failed
      cases failed

/-- A constant has the value that its expression folds to. -/
theorem fold_of_constantAt {pos : Pos} {e : Expr} {value : Int64}
    (done : constantAt pos e = .ok value) : e.fold = .ok (.number value) := by
  -- The expression folds, and to a number.
  unfold constantAt at done
  cases folds : e.fold with
  | error cause =>
    rw [folds] at done
    cases done
  | ok folded =>
    rw [folds] at done
    cases folded with
    | number =>
      cases done
      rfl
    | _ => cases done

/-- A constant stays in its line, and starts with the token that is blamed for what is wrong. -/
theorem const_inLine (other : Error → Prop)
    (ended : ∀ eol ∈ tokens.getLast?, eol.lexeme = .newline) (inLine : InLine tokens n cursor) :
    (∃ value e after token m, const cursor = .ok value after ∧ InLine tokens m after ∧ m ≤ n ∧
      ahead cursor = token.pos ∧ ExpressionAt tokens token e ∧ e.fold = .ok (.number value)) ∨
    ∃ e after, const cursor = .error e after ∧ Blamed tokens other e := by
  -- The position that is blamed is taken before the expression is read.
  rcases expression_inLine other ended inLine with
    ⟨e, after, token, m, read, left, fewer, stands, written⟩ | ⟨e, after, failed, blamed⟩
  · have whole := const_of_expression read
    rw [stands] at whole
    cases constant : constantAt token.pos e with
    | ok value =>
      rw [constant] at whole
      exact .inl ⟨value, e, after, token, m, whole, left, fewer, stands, written,
        fold_of_constantAt constant⟩
    | error failure =>
      rw [constant] at whole
      exact .inr ⟨failure, after, whole, .inr (.inr ⟨token, blames_of_constantAt written constant⟩)⟩
  · exact .inr ⟨e, after, const_of_error failed, blamed⟩

variable {ended : ∀ eol ∈ tokens.getLast?, eol.lexeme = .newline}

/-- A constant. -/
theorem const_agree : (overLine other ended).Agree bound Any const const := by
  -- An expression is read and is a constant, or the error is blamed on it.
  rintro n cursor _ ⟨rfl, inLine⟩ -
  rcases const_inLine other ended inLine with
    ⟨value, e, after, token, m, ran, left, fewer, -⟩ | ⟨e, after, failed, blamed⟩
  · rw [ran]
    exact .ok_of_le ⟨rfl, left⟩ fewer trivial
  · rw [failed]
    exact .error blamed

/-- A number that is not negative. -/
theorem unsigned_agree : (overLine other ended).Agree bound Any unsigned unsigned := by
  -- A constant is read, and may be negative.
  rintro n cursor _ ⟨rfl, inLine⟩ -
  rcases const_inLine other ended inLine with
    ⟨value, e, after, token, m, ran, left, fewer, stands, written, folds⟩ |
    ⟨e, after, failed, blamed⟩
  · rw [unsigned, bind_of_ok (here_eq cursor), bind_of_ok ran, stands]
    by_cases below : value.toInt < 0
    · rw [if_pos below]
      exact .error (.inr (.inr ⟨token, .negative written folds below⟩))
    · rw [if_neg below]
      exact .ok_of_le ⟨rfl, left⟩ fewer trivial
  · rw [unsigned, bind_of_ok (here_eq cursor), bind_of_error failed]
    exact .error blamed

/-- One number, or two. -/
theorem unsignedPair_agree : (overLine other ended).Agree bound Any unsignedPair unsignedPair := by
  -- A comma says whether another number follows.
  refine unsigned_agree.bind fun _ first _ => (eat_agree .comma).bind fun _ found _ => ?_
  cases found with
  | true => exact unsigned_agree.bind fun _ _ _ => .answer trivial
  | false => exact .answer trivial

/-- A failure of another kind. -/
theorem other_agree {told : Nat → α → Prop} {e : Error} (kind : other e) :
    (overLine other ended).Agree bound told (throw e) (throw e) :=
  fun _ _ _ _ _ => .error (.inl kind)

/-- What is no error of the arguments of a directive: the loader's, and that of its name. -/
def NotOfArgs (load : Loader) (head : String) (pos : Pos) (e : Error) : Prop :=
  (∃ name, load name = .error e) ∨ e = .unknownDirective pos ("#" ++ head)

variable {load : Loader} {head : String} {pos : Pos}

/-- The arguments of any directive. -/
theorem directiveArgs_agree :
    (overLine (NotOfArgs load head pos) ended).Agree bound Any (directiveArgs load head pos)
      (directiveArgs load head pos) := by
  have vector : ∀ kind, (overLine (NotOfArgs load head pos) ended).Agree bound Any
      (do return Directive.vector kind (← ident)) (do return Directive.vector kind (← ident)) :=
    fun _ => ident_agree.bind fun _ _ _ => .answer trivial
  -- By the word; directives with the same kind of arguments together.
  unfold directiveArgs
  split
  -- Two numbers, no argument, or one number.
  case h_1 | h_3 | h_5 => exact unsignedPair_agree.bind fun _ _ _ => .answer trivial
  case h_2 | h_6 => exact .answer trivial
  case h_4 | h_8 => exact unsigned_agree.bind fun _ _ _ => .answer trivial
  -- The fill of a gap is a word or a number.
  case h_7 =>
    refine (accept?_agree fun _ => rfl).bind fun _ found _ => ?_
    cases found with
    | some found => exact .answer trivial
    | none => exact const_agree.bind fun _ _ _ => .answer trivial
  -- The name of a file, which is loaded at once.
  case h_9 =>
    refine (require_agree fun _ => rfl).bind fun _ found _ => ?_
    obtain ⟨name, place⟩ := found
    cases loaded : load name with
    | ok bytes =>
      simp only [loaded]
      exact .answer trivial
    | error e =>
      simp only [loaded]
      exact other_agree (.inl ⟨name, loaded⟩)
  -- Vectors are names, and an unknown word is refused.
  case h_10 | h_11 | h_12 => exact vector _
  case h_13 => exact other_agree (.inr rfl)

/-- A directive that fails blames a token of its line, or is not blamed on its arguments. -/
theorem blamed_of_directive {e : Error}
    (ended : ∀ eol ∈ tokens.getLast?, eol.lexeme = .newline) (inLine : InLine tokens n cursor)
    (failed : directive load head pos cursor = .error e after) :
    Blamed tokens (NotOfArgs load head pos) e := by
  -- The arguments fail, or something is left behind them.
  have ends : (overLine (NotOfArgs load head pos) ended).Ends n Any
      (directiveArgs load head pos cursor) (directiveArgs load head pos cursor) :=
    directiveArgs_agree ⟨rfl, inLine⟩ (Nat.lt_succ_self n)
  -- The arguments fail themselves.
  cases ran : directiveArgs load head pos cursor with
  | error e' after' =>
    rw [ran] at ends
    rw [directive, bind_of_error ran] at failed
    cases failed
    cases ends with
    | error blamed => exact blamed
  | ok d left =>
    -- They are read, and the rest of the line is looked at.
    rw [ran] at ends
    rw [directive, bind_of_ok ran] at failed
    cases ends with
    | ok joined =>
      -- Only a token that is left behind the ends of lines makes it fail now.
      obtain ⟨-, inLine⟩ := joined
      have skipped : skipNewlines left = .ok () (left.skip (· = .newline)) := rfl
      have seen : Parse.peek? (left.skip (· = .newline)) =
        .ok (left.skip (· = .newline)).peek? (left.skip (· = .newline)) := rfl
      rw [bind_of_ok skipped, bind_of_ok seen] at failed
      cases next : (left.skip (· = .newline)).next? with
      | none =>
        rw [Cursor.peek?, next] at failed
        cases failed
      | some found =>
        obtain ⟨token, behind⟩ := found
        rw [Cursor.peek?, next] at failed
        have refused : (unexpected : Parse Directive) (left.skip (· = .newline)) = .error e after :=
          failed
        rw [unexpected_eq, next] at refused
        cases refused
        obtain ⟨before, split, visible⟩ := split_of_next? next
        have inside : token ∈ (left.skip (· = .newline)).rest := by simp [split]
        have part := (skipFrom_suffix (· = .newline) left.last left.rest).trans inLine.part
        exact .inr (.inr ⟨token, .unreadable (part.subset inside) visible⟩)

end Parse

/-- A token is one of those among which its expression is written. -/
theorem ExpressionAt.mem {tokens : List Token} {token : Token} {e : Expr}
    (written : ExpressionAt tokens token e) : token ∈ tokens := by
  -- The token is the first that is seen from a place in the line.
  obtain ⟨cursor, -, part, seen, -⟩ := written
  obtain ⟨⟨first, after⟩, next, rfl⟩ := Option.map_eq_some_iff.1 seen
  obtain ⟨skipped, split, -⟩ := Parse.split_of_next? next
  exact part.subset (by simp [split])

/-- The token that is blamed is one of those that were read. -/
theorem Blames.mem {tokens : List Token} {token : Token} {e : Error}
    (blames : Blames tokens token e) : token ∈ tokens := by
  -- Whatever the token is blamed for, it is one that was written.
  cases blames with
  | unreadable inside => exact inside
  | valueless written | unknown written | negative written => exact written.mem

end CrossAsm

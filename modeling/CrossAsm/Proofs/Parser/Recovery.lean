import CrossAsm.Proofs.Parser.Ends

/-! Recovery from errors. Parsing is a run of statements, each of which only depends on the tokens
from its first one on; an error ends its line. What is parsed of a line does not depend on the lines
behind it, and those are parsed as if they stood alone, but for one case: where a value is missing
at the end of a line, the end of the line is read with the error, and the line behind it is lost. -/

namespace CrossAsm

/-! ### Statements one after another -/

/-- A cursor behind another one: there are fewer tokens left of the same ones. -/
def Cursor.Behind (after cursor : Cursor) : Prop :=
  after.rest <:+ cursor.rest ∧ after.rest.length < cursor.rest.length

/-- The tokens from the next statement on. -/
def Token.fromStatement (tokens : List Token) : List Token :=
  tokens.dropWhile fun token => token.lexeme.isComment || token.lexeme.isSeparator

/-- The tokens from the end of the line on. -/
def Token.fromLineEnd (tokens : List Token) : List Token :=
  tokens.dropWhile fun token => token.lexeme ≠ .newline

/-- What becomes of a statement: what it is or why it is none, and the tokens that are left unread
behind it. -/
structure Outcome where
  /-- The items of the statement, or its error. -/
  told : Except Error (List Item)
  /-- The tokens that are left. -/
  left : List Token

namespace Outcome

/-- The outcome of reading a statement. -/
def ofResult : EStateM.Result Error Cursor (List Item) → Outcome
  | .ok items after => ⟨.ok items, after.rest⟩
  | .error e after => ⟨.error e, after.rest⟩

/-- The tokens that the next statement is looked for in: an error ends its line. -/
def next (outcome : Outcome) : List Token :=
  match outcome.told with
  | .ok _ => outcome.left
  | .error _ => Token.fromLineEnd outcome.left

/-- Whether a statement failed with everything read. -/
def exhausts (outcome : Outcome) : Bool :=
  match outcome.told with
  | .ok _ => false
  | .error _ => outcome.left.isEmpty

/-- What is told of statements, put together. -/
def gather : List (Except Error (List Item)) → List Item × List Error
  | [] => ([], [])
  | .ok items :: more => (items ++ (gather more).1, (gather more).2)
  | .error e :: more => ((gather more).1, e :: (gather more).2)

end Outcome

/-- The outcomes of statements, at most a number of them. -/
def outcomesWithin (cpu : Cpu) : Nat → List Token → List Outcome
  | 0, _ => []
  | rounds + 1, tokens =>
    match Token.fromStatement tokens with
    | [] => []
    | first :: rest =>
      let outcome := Outcome.ofResult (Parse.statement cpu ⟨first :: rest, {}⟩)
      outcome :: outcomesWithin cpu rounds outcome.next

/-- The outcomes of all statements. -/
def outcomes (cpu : Cpu) (tokens : List Token) : List Outcome :=
  outcomesWithin cpu (tokens.length + 1) tokens

/-- Whether some statement fails with everything read. -/
def overruns (cpu : Cpu) (tokens : List Token) : Bool :=
  (outcomes cpu tokens).any Outcome.exhausts

section Outcomes

open Token (fromStatement fromLineEnd)
open Outcome (ofResult gather)

variable {cpu : Cpu} {tokens rest : List Token} {first : Token}

/-- Separators and comments are read past, whatever was read last. -/
theorem Cursor.skip_rest (cursor : Cursor) :
    (cursor.skip Lexeme.isSeparator).rest = fromStatement cursor.rest := by
  -- By induction on the tokens, each of which is a comment, a separator, or where it stops.
  obtain ⟨tokens, last⟩ := cursor
  unfold Cursor.skip fromStatement
  simp only
  induction tokens generalizing last with
  | nil => rfl
  | cons token rest ih =>
    unfold Cursor.skipFrom
    split
    · rename_i comment
      rw [List.dropWhile_cons_of_pos (by simp [comment]), ih]
    · rename_i visible
      split
      · rename_i separator
        rw [List.dropWhile_cons_of_pos (by simp [separator]), ih]
      · rename_i other
        rw [List.dropWhile_cons_of_neg (by simp [visible, other])]

/-- The rest of a line is read past, whatever was read last. -/
theorem Cursor.skipLine_rest (cursor : Cursor) :
    cursor.skipLine.rest = fromLineEnd cursor.rest := by
  -- By induction on the tokens, up to the end of the line.
  obtain ⟨tokens, last⟩ := cursor
  unfold Cursor.skipLine fromLineEnd
  simp only
  induction tokens generalizing last with
  | nil => rfl
  | cons token rest ih =>
    unfold Cursor.skipLineFrom
    split
    · rename_i ends
      rw [List.dropWhile_cons_of_neg (by simp [ends])]
    · rename_i other
      rw [List.dropWhile_cons_of_pos (by simp [other]), ih]

/-- A statement starts with a token that is seen and separates nothing. -/
theorem Token.of_fromStatement (starts : fromStatement tokens = first :: rest) :
    first.lexeme.isComment = false ∧ first.lexeme.isSeparator = false := by
  -- What is left is the first token that is neither.
  have kept := List.head?_dropWhile_not
    (fun token : Token => token.lexeme.isComment || token.lexeme.isSeparator) tokens
  rw [show tokens.dropWhile _ = first :: rest from starts] at kept
  simpa using kept

/-- What becomes of a statement does not depend on what was read last. -/
theorem ofResult_last (visible : first.lexeme.isComment = false) (last last' : Pos) :
    ofResult (Parse.statement cpu ⟨first :: rest, last⟩) =
      ofResult (Parse.statement cpu ⟨first :: rest, last'⟩) := by
  -- The first token is read next either way, and its position replaces the one that was last.
  rw [Parse.statement_of_next? cpu (Cursor.next?_cons visible rest last),
    Parse.statement_of_next? cpu (Cursor.next?_cons visible rest last')]
  cases Parse.statementFrom cpu first.pos first.lexeme <;> rfl

/-- Parsing tells the outcomes of the statements. -/
theorem Cursor.statements_eq (rounds : Nat) (cursor : Cursor) :
    cursor.statements cpu rounds =
      gather ((outcomesWithin cpu rounds cursor.rest).map (·.told)) := by
  -- By induction on the rounds, each of which reads a statement or leaves out a line.
  induction rounds generalizing cursor with
  | zero => rfl
  | succ rounds ih =>
    have skipped := Cursor.skip_rest cursor
    unfold Cursor.statements outcomesWithin
    simp only
    generalize cursor.skip Lexeme.isSeparator = start at skipped ⊢
    obtain ⟨tokens, last⟩ := start
    simp only at skipped
    rw [← skipped]
    cases tokens with
    -- Nothing is left but separators.
    | nil => rfl
    | cons first rest =>
      -- The first token is there to be seen, and a statement is read from it on.
      have visible := (Token.of_fromStatement skipped.symm).1
      have ahead : (Cursor.peek? ⟨first :: rest, last⟩).isNone = false := by
        rw [Cursor.peek?, Cursor.next?_cons visible]
        rfl
      simp only [ahead, Bool.false_eq_true, if_false]
      rw [ofResult_last visible {} last]
      -- Reading goes on behind the statement, or behind its line.
      cases Parse.statement cpu ⟨first :: rest, last⟩ with
      | ok items after =>
        simp only [ih]
        rfl
      | error e after =>
        simp only [ih, Cursor.skipLine_rest]
        rfl

/-- Behind an error in a statement the end of the line comes with fewer tokens. -/
theorem Token.length_fromLineEnd_lt {read left : List Token} (other : first.lexeme ≠ .newline)
    (split : first :: rest = read ++ left) :
    (fromLineEnd left).length < (first :: rest).length := by
  -- Something was read, or the first token is left out.
  have shorter : ∀ tokens, (fromLineEnd tokens).length ≤ tokens.length :=
    fun tokens => (List.dropWhile_suffix _).length_le
  cases read with
  | nil =>
    -- Where nothing was read, at least the first token is.
    rw [List.nil_append] at split
    rw [← split, fromLineEnd, List.dropWhile_cons_of_pos (by simpa using other)]
    exact Nat.lt_succ_of_le (shorter rest)
  | cons token more =>
    have := shorter left
    rw [split, List.cons_append, List.length_cons, List.length_append]
    omega

/-- What comes next is no end of a line. -/
theorem Token.ne_newline_of_fromStatement (starts : fromStatement tokens = first :: rest) :
    first.lexeme ≠ .newline := by
  -- The end of a line is a separator.
  intro newline
  have other := (Token.of_fromStatement starts).2
  rw [newline] at other
  cases other

/-- A statement that is read leaves fewer tokens, and so does one that fails when the rest of its
line is left out. -/
theorem Parse.statement_behind (cpu : Cpu) {start : Cursor} (split : start.rest = first :: rest)
    (other : first.lexeme ≠ .newline) :
    match statement cpu start with
    | .ok _ after => after.Behind start
    | .error _ after => after.skipLine.Behind start := by
  -- The parser is run beside itself, to see what it has read.
  have agree : (alone start.rest).Agree (start.rest.length + 1) (fun n _ => 0 < n) (statement cpu)
      (statement cpu) := statement_agree alone_lax cpu
  cases ran : statement cpu start with
  | ok items after =>
    obtain ⟨read, whole, some⟩ := read_of_agree agree ran
    refine ⟨⟨read, whole.symm⟩, ?_⟩
    rw [whole, List.length_append]
    omega
  | error e after =>
    -- Where it fails nothing need have been read, but its first token is on the line.
    obtain ⟨read, whole⟩ := suffix_of_agree agree ran
    simp only [Cursor.Behind, Cursor.skipLine_rest]
    refine ⟨(List.dropWhile_suffix _).trans ⟨read, whole.symm⟩, ?_⟩
    rw [split] at whole ⊢
    exact Token.length_fromLineEnd_lt other whole

/-- Behind a statement there are fewer tokens than from it on. -/
theorem Outcome.length_next (cpu : Cpu) (starts : fromStatement tokens = first :: rest) :
    (ofResult (Parse.statement cpu ⟨first :: rest, {}⟩)).next.length < (first :: rest).length := by
  -- What comes next is what the statement leaves, or the rest behind its line.
  have behind := Parse.statement_behind cpu (show Cursor.rest ⟨first :: rest, {}⟩ = _ from rfl)
    (Token.ne_newline_of_fromStatement starts)
  revert behind
  cases Parse.statement cpu ⟨first :: rest, {}⟩ with
  | ok items after => exact fun behind => behind.2
  | error e after =>
    intro behind
    have fewer := behind.2
    rwa [Cursor.skipLine_rest] at fewer

/-- From the next statement on there are no more tokens. -/
theorem Token.length_fromStatement (tokens : List Token) :
    (fromStatement tokens).length ≤ tokens.length :=
  (List.dropWhile_suffix _).length_le

/-- Rounds enough for all tokens are enough for all statements. -/
theorem outcomesWithin_enough {rounds rounds' : Nat} (enough : tokens.length < rounds)
    (enough' : tokens.length < rounds') :
    outcomesWithin cpu rounds tokens = outcomesWithin cpu rounds' tokens := by
  -- By induction on the rounds, each of which leaves fewer tokens.
  induction rounds generalizing rounds' tokens with
  | zero => omega
  | succ rounds ih =>
    obtain ⟨rounds', rfl⟩ : ∃ fewer, rounds' = fewer + 1 := Nat.exists_eq_add_one.2 (by omega)
    have fewer := Token.length_fromStatement tokens
    unfold outcomesWithin
    split
    · rfl
    · rename_i first rest starts
      rw [starts] at fewer
      have less := Outcome.length_next cpu starts
      exact congrArg _ (ih (by omega) (by omega))

/-- The outcomes are that of the next statement and those behind it. -/
theorem outcomes_eq (cpu : Cpu) (tokens : List Token) :
    outcomes cpu tokens =
      match fromStatement tokens with
      | [] => []
      | first :: rest =>
        let outcome := ofResult (Parse.statement cpu ⟨first :: rest, {}⟩)
        outcome :: outcomes cpu outcome.next := by
  -- One round is taken for the first statement, and there are enough for the others.
  have fewer := Token.length_fromStatement tokens
  unfold outcomes
  rw [outcomesWithin]
  split
  · rfl
  · rename_i first rest starts
    rw [starts] at fewer
    have less := Outcome.length_next cpu starts
    exact congrArg _ (outcomesWithin_enough (by omega) (Nat.lt_succ_self _))

/-- Parsing tells the outcomes of all statements. -/
theorem parse_eq (cpu : Cpu) (tokens : List Token) :
    parse cpu tokens = gather ((outcomes cpu tokens).map (·.told)) :=
  Cursor.statements_eq _ _

end Outcomes

/-! ### Lines -/

open Token (fromStatement fromLineEnd)
open Outcome (ofResult gather)

/-- What one run of parsing tells, and then another one. -/
def joined (first second : List Item × List Error) : List Item × List Error :=
  (first.1 ++ second.1, first.2 ++ second.2)

/-- What is told of all statements. -/
def told (cpu : Cpu) (tokens : List Token) : List (Except Error (List Item)) :=
  (outcomes cpu tokens).map (·.told)

variable {cpu : Cpu} {ahead rest tokens others : List Token} {eol first : Token}

/-- What is told of statements and of others behind them. -/
theorem Outcome.gather_append (early late : List (Except Error (List Item))) :
    gather (early ++ late) = joined (gather early) (gather late) := by
  -- By induction on the statements in front.
  induction early with
  | nil => rfl
  | cons one more ih =>
    cases one <;> simp [gather, ih, joined]

/-- An error that is told last is the last of the errors. -/
theorem Outcome.gather_getLast? {all : List (Except Error (List Item))} {e : Error}
    (last : all.getLast? = some (.error e)) : (gather all).2.getLast? = some e := by
  -- What is told before it is gathered in front of it.
  obtain ⟨early, rfl⟩ := List.getLast?_eq_some_iff.1 last
  rw [gather_append]
  simp [joined, gather]

/-- Where no statement comes next there is nothing to tell. -/
theorem told_of_nil (none : fromStatement tokens = []) : told cpu tokens = [] := by
  -- There is no pass over a statement.
  rw [told, outcomes_eq, none]
  rfl

/-- The statements are those from the next one on. -/
theorem told_congr (same : fromStatement tokens = fromStatement others) :
    told cpu tokens = told cpu others := by
  -- The passes are made over the same tokens.
  rw [told, told, outcomes_eq, same, ← outcomes_eq]

/-- What is told starts with the next statement. -/
theorem told_of_cons (starts : fromStatement tokens = first :: rest) :
    told cpu tokens =
      (ofResult (Parse.statement cpu ⟨first :: rest, {}⟩)).told ::
        told cpu (ofResult (Parse.statement cpu ⟨first :: rest, {}⟩)).next := by
  -- The first pass is over that statement, and the others from behind it.
  rw [told, outcomes_eq, starts]
  rfl

/-- Where no statement comes next none fails. -/
theorem overruns_of_nil (none : fromStatement tokens = []) : overruns cpu tokens = false := by
  -- There is no pass over a statement.
  rw [overruns, outcomes_eq, none]
  rfl

/-- The statement that fails with everything read is the next one or one behind it. -/
theorem overruns_of_cons (starts : fromStatement tokens = first :: rest) :
    overruns cpu tokens =
      ((ofResult (Parse.statement cpu ⟨first :: rest, {}⟩)).exhausts ||
        overruns cpu (ofResult (Parse.statement cpu ⟨first :: rest, {}⟩)).next) := by
  -- The first pass is over that statement, and the others from behind it.
  rw [overruns, outcomes_eq, starts]
  rfl

/-- The next statement is looked for ahead, and behind the end of the line only if there is none. -/
theorem Token.fromStatement_append (ends : eol.lexeme = .newline) (ahead rest : List Token) :
    fromStatement (ahead ++ eol :: rest) =
      if fromStatement ahead = [] then fromStatement rest
      else fromStatement ahead ++ eol :: rest := by
  -- The end of the line is one of the separators that are dropped, if all before it are.
  unfold fromStatement
  rw [List.dropWhile_append, List.dropWhile_cons_of_pos (by simp [ends, Lexeme.isSeparator])]
  simp only [List.isEmpty_iff]

/-- The end of a line is found ahead, or else it is the one behind. -/
theorem Token.fromLineEnd_append (ends : eol.lexeme = .newline) (ahead rest : List Token) :
    fromLineEnd (ahead ++ eol :: rest) = fromLineEnd ahead ++ eol :: rest := by
  -- By whether there is an end of a line among the tokens in front.
  unfold fromLineEnd
  rw [List.dropWhile_append, List.dropWhile_cons_of_neg (by simp [ends])]
  split
  · rename_i none
    rw [List.isEmpty_iff.1 none, List.nil_append]
  · rfl

/-- What is told of a line, and of the tokens behind it: those are read as they would be alone, but
the rest of their first line is lost where a statement fails with the whole line read. That is told
at the end of the line. -/
theorem told_line (ends : eol.lexeme = .newline) (rest : List Token)
    (within : ∀ token ∈ ahead, token.lexeme.spansLines = false) :
    told cpu (ahead ++ eol :: rest) = told cpu (ahead ++ [eol]) ++
        told cpu (if overruns cpu (ahead ++ [eol]) = true then fromLineEnd rest else rest) ∧
      (overruns cpu (ahead ++ [eol]) = true → (told cpu (ahead ++ [eol])).getLast? =
        some (.error (.unexpectedToken eol.pos eol.lexeme.render))) := by
  -- By induction on the number of tokens ahead: each statement leaves fewer of them.
  generalize count : ahead.length = bound
  induction bound using Nat.strongRecOn generalizing ahead with
  | ind bound ih =>
    subst count
    cases starts : fromStatement ahead with
    | nil =>
      -- No statement starts in the line.
      have behind : fromStatement (ahead ++ eol :: rest) = fromStatement rest := by
        rw [Token.fromStatement_append ends, if_pos starts]
      have none : fromStatement (ahead ++ [eol]) = [] := by
        rw [Token.fromStatement_append ends, if_pos starts]
        rfl
      rw [told_congr behind, told_of_nil none, overruns_of_nil none]
      exact ⟨rfl, nofun⟩
    | cons first more =>
      -- A statement starts in the line, of which the same tokens are ahead with the rest behind it
      -- and without.
      have long : fromStatement (ahead ++ eol :: rest) = first :: (more ++ eol :: rest) := by
        rw [Token.fromStatement_append ends, starts]
        rfl
      have short : fromStatement (ahead ++ [eol]) = first :: (more ++ [eol]) := by
        rw [Token.fromStatement_append ends, starts]
        rfl
      have part : first :: more <:+ ahead := starts ▸ List.dropWhile_suffix _
      have fewer := part.length_le
      have plain : ∀ {left}, left <:+ first :: more →
          ∀ token ∈ left, token.lexeme.spansLines = false :=
        fun inside token mem => within token ((inside.trans part).subset mem)
      have alike := Parse.statement_alike (.line ends rest []) cpu
        (fun _ => plain (List.suffix_refl _)) {}
      rw [told_of_cons long, told_of_cons short, overruns_of_cons short]
      revert alike
      rw [List.cons_append, List.cons_append]
      generalize Parse.statement cpu ⟨first :: (more ++ eol :: rest), {}⟩ = x
      generalize Parse.statement cpu ⟨first :: (more ++ [eol]), {}⟩ = x'
      rintro (@⟨items, read, left, _, split, took⟩ | @⟨e, read, left, _, split⟩ | ⟨end_, end'⟩)
      · -- The statement is within the line, and the others are read behind it.
        obtain ⟨same, told⟩ := ih left.length (by
          rw [split, List.length_append] at fewer
          omega) (plain ⟨read, split.symm⟩) rfl
        simp only [ofResult, Outcome.next, Outcome.exhausts, Bool.false_or]
        refine ⟨by rw [same, List.cons_append], fun runs => ?_⟩
        rw [List.getLast?_cons, told runs]
        rfl
      · -- The error ends the line, or an end of a line ahead.
        have less := Token.length_fromLineEnd_lt (Token.ne_newline_of_fromStatement starts) split
        have inside : fromLineEnd left <:+ first :: more :=
          (List.dropWhile_suffix _).trans ⟨read, split.symm⟩
        obtain ⟨same, told⟩ := ih (fromLineEnd left).length (by omega) (plain inside) rfl
        have unread : (left ++ [eol]).isEmpty = false := by simp
        simp only [ofResult, Outcome.next, Outcome.exhausts, unread, Bool.false_or,
          Token.fromLineEnd_append ends]
        refine ⟨by rw [same, List.cons_append], fun runs => ?_⟩
        rw [List.getLast?_cons, told runs]
        rfl
      · -- The end of the line was read.
        cases end_
        cases end'
        have none : told cpu (fromLineEnd []) = [] := told_of_nil rfl
        simp only [ofResult, Outcome.next, Outcome.exhausts, List.isEmpty_nil, Bool.true_or, none]
        exact ⟨rfl, fun _ => rfl⟩

/-- Parsing goes line by line. Whatever comes behind a line without a brace, a struct or an enum,
the line gives what it gives alone, and what comes behind gives what it gives alone, but for one
case: where a statement fails with the whole line read, the rest of the line behind it is lost. So
parsing a line and the lines behind it one after the other is the same for all of these if and only
if no statement of the line fails so; and a line in which one does ends in the error that the end of
the line is not expected. -/
theorem parse_line (cpu : Cpu) (line : List Token) (eol : Token) (ends : eol.lexeme = .newline)
    (within : ∀ token ∈ line, token.lexeme.spansLines = false) :
    (∀ rest, parse cpu (line ++ eol :: rest) = joined (parse cpu (line ++ [eol]))
      (parse cpu (if overruns cpu (line ++ [eol]) = true then fromLineEnd rest else rest))) ∧
    ((∀ rest, parse cpu (line ++ eol :: rest) =
        joined (parse cpu (line ++ [eol])) (parse cpu rest)) ↔
      overruns cpu (line ++ [eol]) = false) ∧
    (overruns cpu (line ++ [eol]) = true → (parse cpu (line ++ [eol])).2.getLast? =
      some (.unexpectedToken eol.pos eol.lexeme.render)) := by
  -- What is told of the line and of what comes behind it is put together.
  have lines : ∀ rest, parse cpu (line ++ eol :: rest) = joined (parse cpu (line ++ [eol]))
      (parse cpu (if overruns cpu (line ++ [eol]) = true then fromLineEnd rest else rest)) := by
    intro rest
    simp only [parse_eq]
    rw [← Outcome.gather_append]
    exact congrArg gather (told_line ends rest within).1
  refine ⟨lines, ⟨fun split => ?_, fun closed rest => ?_⟩, fun runs => ?_⟩
  · -- A return behind the line would be lost.
    refine Bool.eq_false_iff.2 fun runs => ?_
    have one : parse cpu [⟨.keyword .returnWord, {}⟩] = ([.ret ⟨false, {}⟩], []) := rfl
    have none : parse cpu [] = ([], []) := rfl
    have both := (split [⟨.keyword .returnWord, {}⟩]).symm.trans (lines _)
    rw [if_pos runs, one] at both
    have lost : fromLineEnd [⟨.keyword .returnWord, {}⟩] = [] := rfl
    rw [lost, none] at both
    have count := congrArg (fun parsed => parsed.1.length) both
    simp [joined] at count
  · rw [lines, if_neg (by simp [closed])]
  · rw [parse_eq]
    exact Outcome.gather_getLast? ((told_line ends [] within).2 runs)

/-- The lexemes of a line as tokens. -/
def lineOf (row : Nat) (lexemes : List Lexeme) : List Token :=
  lexemes.map fun lexeme => ⟨lexeme, { row }⟩

/-- A line in which a value is missing before its end, and one in which something else is in its
place. -/
def valueMissing : List Token :=
  lineOf 0 [.ident "lda", .glyph .hash]

/-- A line in which something else is in the place of a value. -/
def valueMistaken : List Token :=
  lineOf 0 [.ident "lda", .glyph .hash, .glyph .rightParen]

/-- The end of the first line, and a line behind it. -/
def stepLine : List Token :=
  lineOf 1 [.ident "inx", .newline]

/-- An error need not stay in its line. -/
theorem valueMissing_spreads : ¬∀ (cpu : Cpu) (line rest : List Token) (eol : Token),
    eol.lexeme = .newline → (∀ token ∈ line, token.lexeme ≠ .newline) →
    (∀ token ∈ line, token.lexeme.spansLines = false) →
    parse cpu (line ++ eol :: rest) = joined (parse cpu (line ++ [eol])) (parse cpu rest) := by
  -- The statement behind the line without a value is lost, and the count shows it.
  intro splits
  have both := splits .nmos valueMissing stepLine ⟨.newline, {}⟩ rfl (by decide) (by decide)
  have count := congrArg (fun parsed => parsed.1.length) both
  revert count
  decide +kernel

/-- Behind the line with the mistaken value the next line is read; behind the line without a value
it is lost. -/
theorem valueMistaken_stays :
    parse .nmos (valueMistaken ++ ⟨.newline, {}⟩ :: stepLine) =
      joined (parse .nmos (valueMistaken ++ [⟨.newline, {}⟩])) (parse .nmos stepLine) ∧
    parse .nmos (valueMissing ++ ⟨.newline, {}⟩ :: stepLine) =
      joined (parse .nmos (valueMissing ++ [⟨.newline, {}⟩]))
        (parse .nmos [⟨.newline, { row := 1 }⟩]) ∧
    (parse .nmos (valueMissing ++ [⟨.newline, {}⟩])).2.getLast? =
      some (.unexpectedToken {} "end of line") := by
  -- Whether a statement runs over the end of its line is evaluated.
  have runs : overruns .nmos (valueMissing ++ [⟨.newline, {}⟩]) = true := by decide +kernel
  obtain ⟨-, mistaken, -⟩ :=
    parse_line .nmos valueMistaken ⟨.newline, {}⟩ rfl (by decide)
  obtain ⟨missing, -, told⟩ :=
    parse_line .nmos valueMissing ⟨.newline, {}⟩ rfl (by decide)
  refine ⟨mistaken.2 (by decide +kernel) stepLine, ?_, told runs⟩
  rw [missing stepLine, if_pos runs]
  rfl

end CrossAsm

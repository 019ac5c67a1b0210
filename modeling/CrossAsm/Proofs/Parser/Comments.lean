import CrossAsm.Proofs.Parser.Recovery

/-! Comments make no difference to what is parsed. A cursor over tokens with comments and one over
the same tokens without them see the same tokens and remember the same last one, so each statement
ends alike on both; and where an error ends its line, the same end of the line comes next. -/

namespace CrossAsm

/-- Tokens without the comments among them. -/
def Token.visible (tokens : List Token) : List Token :=
  tokens.filter fun token => !token.lexeme.isComment

open Token (visible fromStatement fromLineEnd)
open Outcome (ofResult)

/-! ### Cursors -/

/-- The upcoming token is the first one that is no comment. -/
theorem Token.visible_of_next? {cursor after : Cursor} {token : Token}
    (next : cursor.next? = some (token, after)) :
    visible cursor.rest = token :: visible after.rest ∧ token.lexeme.isComment = false ∧
      after.last = token.pos := by
  -- By induction on the tokens: comments in front are skipped by both.
  obtain ⟨tokens, last⟩ := cursor
  induction tokens with
  | nil => cases next
  | cons first rest ih =>
    cases comment : first.lexeme.isComment with
    | true =>
      simp only [Cursor.next?, comment, List.dropWhile_cons_of_pos] at next
      simpa [visible, comment] using ih next
    | false =>
      rw [Cursor.next?_cons comment] at next
      cases next
      exact ⟨by simp [visible, comment], comment, rfl⟩

/-- Where no token comes next there are only comments. -/
theorem Token.visible_of_next?_none {cursor : Cursor} (next : cursor.next? = none) :
    visible cursor.rest = [] := by
  -- By induction on the tokens, all of which are comments.
  obtain ⟨tokens, last⟩ := cursor
  induction tokens with
  | nil => rfl
  | cons first rest ih =>
    cases comment : first.lexeme.isComment with
    | true =>
      simp only [Cursor.next?, comment, List.dropWhile_cons_of_pos] at next
      simpa [visible, comment] using ih next
    | false =>
      rw [Cursor.next?_cons comment] at next
      cases next

/-- Comments are read past with the tokens of any class. -/
theorem Cursor.skipFrom_visible (p : Lexeme → Bool) (last : Pos) (tokens : List Token) :
    skipFrom p last (visible tokens) =
      ⟨visible (skipFrom p last tokens).rest, (skipFrom p last tokens).last⟩ := by
  -- A comment is dropped from the front with the others, and is not there without them.
  induction tokens generalizing last with
  | nil => rfl
  | cons token rest ih =>
    by_cases comment : token.lexeme.isComment = true
    · simpa [visible, skipFrom, comment] using ih last
    · by_cases inClass : p token.lexeme = true
      · simpa [visible, skipFrom, comment, inClass] using ih token.pos
      · simp [visible, skipFrom, comment, inClass]

namespace Parse

/-- A cursor, and one over the same tokens without comments, of which there are a number. -/
def Bared (n : Nat) (c c' : Cursor) : Prop :=
  (visible c.rest).length = n ∧ c' = ⟨visible c.rest, c.last⟩

/-- Where runs with and without comments may fail: with the same tokens left. -/
def FailsBared (_ : Error) (c c' : Cursor) : Prop :=
  ∃ n, Bared n c c'

/-- Both cursors see the same token. -/
theorem Bared.sight {n : Nat} {c c' : Cursor} (bared : Bared n c c') :
    Sight Bared FailsBared False False n c c' := by
  have unread : ∀ e, FailsBared e c c' := fun _ => ⟨n, bared⟩
  obtain ⟨rfl, rfl⟩ := bared
  -- Comments in front of the upcoming token are behind neither cursor once it is read.
  cases next : c.next? with
  | none =>
    refine .nothing next ?_ (unread _)
    rw [Token.visible_of_next?_none next]
    rfl
  | some found =>
    obtain ⟨token, after⟩ := found
    obtain ⟨ahead, shown, last⟩ := Token.visible_of_next? next
    have behind : Bared (visible after.rest).length after ⟨visible after.rest, token.pos⟩ :=
      ⟨rfl, by rw [last]⟩
    refine .token next ?_ (unread _) ⟨_, behind⟩ (.inl ⟨⟨_, ?_, behind⟩, nofun⟩)
    · rw [ahead, Cursor.next?_cons shown]
    · rw [ahead]
      exact Nat.lt_succ_self _

/-- Runs over the same tokens with and without comments. -/
def bared : Coupling where
  joined := Bared
  fails := FailsBared
  oneLine := False
  flat := False
  sight := Bared.sight
  last := by
    rintro n c c' ⟨-, rfl⟩
    rfl
  skips := by
    rintro - n c c' p ⟨rfl, rfl⟩
    have fewer := ((skipFrom_suffix p c.last c.rest).filter fun token =>
      !token.lexeme.isComment).length_le
    exact ⟨_, fewer, rfl, Cursor.skipFrom_visible p c.last c.rest⟩
  few := by
    rintro n c c' ⟨rfl, rfl⟩
    exact ⟨List.length_filter_le .., Nat.le_refl _⟩

end Parse

/-! ### Statements -/

variable {cpu : Cpu} {tokens rest : List Token} {first : Token}

/-- The next statement starts with the same token. -/
theorem Token.fromStatement_visible (tokens : List Token) :
    fromStatement (visible tokens) = visible (fromStatement tokens) := by
  -- Comments in front of a statement are read past like separators.
  unfold fromStatement visible
  induction tokens with
  | nil => rfl
  | cons token rest ih =>
    by_cases comment : token.lexeme.isComment = true
    · simpa [comment] using ih
    · by_cases separator : token.lexeme.isSeparator = true
      · simpa [comment, separator] using ih
      · simp [comment, separator]

/-- The same end of a line comes next. -/
theorem Token.fromLineEnd_visible (tokens : List Token) :
    fromLineEnd (visible tokens) = visible (fromLineEnd tokens) := by
  -- An end of a line is no comment, so that both lists stop at the same one.
  unfold fromLineEnd visible
  induction tokens with
  | nil => rfl
  | cons token rest ih =>
    by_cases ends : token.lexeme = .newline
    · simp [ends, Lexeme.isComment]
    · by_cases comment : token.lexeme.isComment = true
      · simpa [ends, comment] using ih
      · simpa [ends, comment] using ih

/-- The same is told of a statement, and the same tokens come next. -/
theorem Outcome.ofResult_visible (cpu : Cpu) (first : Token) (rest : List Token) :
    (ofResult (Parse.statement cpu ⟨visible (first :: rest), {}⟩)).told =
        (ofResult (Parse.statement cpu ⟨first :: rest, {}⟩)).told ∧
      (ofResult (Parse.statement cpu ⟨visible (first :: rest), {}⟩)).next =
        visible (ofResult (Parse.statement cpu ⟨first :: rest, {}⟩)).next := by
  -- The parser is run beside itself, with comments on one side only.
  have lax : Parse.bared.Lax := ⟨fun n _ _ _ joined => ⟨n, joined⟩, id⟩
  have ends := Parse.statement_agree lax cpu
    (show Parse.Bared _ ⟨first :: rest, {}⟩ _ from ⟨rfl, rfl⟩) (Nat.lt_succ_self _)
  -- The runs give one answer, or one error behind which the same end of a line is looked for.
  revert ends
  simp only
  generalize Parse.statement cpu ⟨first :: rest, {}⟩ = x
  generalize Parse.statement cpu ⟨visible (first :: rest), {}⟩ = x'
  rintro (⟨⟨-, rfl⟩, -, -⟩ | ⟨_, -, rfl⟩)
  · exact ⟨rfl, rfl⟩
  · exact ⟨rfl, Token.fromLineEnd_visible _⟩

/-- The same is told of all statements. -/
theorem told_visible (cpu : Cpu) (tokens : List Token) :
    told cpu (visible tokens) = told cpu tokens := by
  -- By induction on the number of tokens: each statement leaves fewer of them.
  generalize count : tokens.length = bound
  induction bound using Nat.strongRecOn generalizing tokens with
  | ind bound ih =>
    subst count
    have same := Token.fromStatement_visible tokens
    cases starts : fromStatement tokens with
    | nil =>
      rw [starts] at same
      rw [told_of_nil starts, told_of_nil same]
    | cons first rest =>
      have fewer := Token.length_fromStatement tokens
      have less := Outcome.length_next cpu starts
      rw [starts] at fewer
      have shown : visible (first :: rest) = first :: visible rest := by
        simp [visible, (Token.of_fromStatement starts).1]
      obtain ⟨one, next⟩ := Outcome.ofResult_visible cpu first rest
      rw [starts, shown] at same
      rw [shown] at one next
      rw [told_of_cons same, told_of_cons starts, one, next, ih _ (by omega) _ rfl]

/-- Comments never change what is parsed: on both processors, tokens give the same items and the
same errors, positions included, as they do with all comments removed. -/
theorem parse_visible (cpu : Cpu) (tokens : List Token) :
    parse cpu (visible tokens) = parse cpu tokens := by
  -- What is parsed is gathered from what is told of the tokens, and comments tell nothing.
  rw [parse_eq, parse_eq]
  exact congrArg Outcome.gather (told_visible cpu tokens)

end CrossAsm

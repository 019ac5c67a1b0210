import CrossAsm.Proofs.Parser.Statements

/-! What a parsing step makes of tokens does not depend on what comes behind them, as long as that
starts with the same end of a line, or is nothing: it only reads on, and where it ends in both cases
it ends alike. A single rule reads an end of a line, and fails with it. -/

namespace CrossAsm

/-- Two ways for tokens to go on that look the same from the front: there is nothing more, or the
line ends. -/
inductive SameEnd : List Token → List Token → Prop
  | nothing : SameEnd [] []
  | line {eol : Token} (ends : eol.lexeme = .newline) (rest rest' : List Token) :
    SameEnd (eol :: rest) (eol :: rest')

namespace Parse

variable {α : Type} {tail tail' ahead : List Token}

/-- Tokens that are read before anything else; with a line behind them none may lead over its
end. -/
def Within (tail ahead : List Token) : Prop :=
  tail ≠ [] → ∀ token ∈ ahead, token.lexeme.spansLines = false

/-- Two runs over the same tokens, with different ones behind them, that end alike: with the same
answer or error in front of what comes behind, or with the end of the line as an error. What is told
of an answer may depend on the number of tokens that were read. -/
inductive Alike (tail tail' ahead : List Token) (told : Nat → α → Prop) :
    EStateM.Result Error Cursor α → EStateM.Result Error Cursor α → Prop
  | ok {a : α} {read left : List Token} {last : Pos} (split : ahead = read ++ left)
    (holds : told read.length a) :
    Alike tail tail' ahead told (.ok a ⟨left ++ tail, last⟩) (.ok a ⟨left ++ tail', last⟩)
  | error {e : Error} {read left : List Token} {last : Pos} (split : ahead = read ++ left) :
    Alike tail tail' ahead told (.error e ⟨left ++ tail, last⟩) (.error e ⟨left ++ tail', last⟩)
  | past {eol : Token} {rest rest' : List Token} (ends : tail = eol :: rest)
    (ends' : tail' = eol :: rest') :
    Alike tail tail' ahead told
      (.error (.unexpectedToken eol.pos eol.lexeme.render) ⟨rest, eol.pos⟩)
      (.error (.unexpectedToken eol.pos eol.lexeme.render) ⟨rest', eol.pos⟩)

/-! ### Tokens -/

/-- The upcoming token is one of those ahead, with comments in front of it, or it is behind them. -/
theorem next?_append (ahead : List Token) (last : Pos) :
    (∃ skipped token left, ahead = skipped ++ token :: left ∧ ∀ tail,
      Cursor.next? ⟨ahead ++ tail, last⟩ = some (token, ⟨left ++ tail, token.pos⟩)) ∨
    ∀ tail, Cursor.next? ⟨ahead ++ tail, last⟩ = Cursor.next? ⟨tail, last⟩ := by
  -- By induction on the tokens ahead: the first that is no comment comes next, whatever follows.
  induction ahead with
  | nil => exact .inr fun _ => rfl
  | cons first rest ih =>
    by_cases comment : first.lexeme.isComment = true
    · have skips : ∀ tail, Cursor.next? ⟨first :: rest ++ tail, last⟩ =
          Cursor.next? ⟨rest ++ tail, last⟩ := by
        intro tail
        simp [Cursor.next?, comment]
      rcases ih with ⟨skipped, token, left, rfl, found⟩ | behind
      · exact .inl ⟨first :: skipped, token, left, rfl, fun tail => (skips tail).trans (found tail)⟩
      · exact .inr fun tail => (skips tail).trans (behind tail)
    · rw [Bool.not_eq_true] at comment
      exact .inl ⟨[], first, rest, rfl, fun tail => Cursor.next?_cons comment _ _⟩

/-- An end of a line that comes next. -/
theorem next?_eol {eol : Token} (ends : eol.lexeme = .newline) (rest : List Token) (last : Pos) :
    Cursor.next? ⟨eol :: rest, last⟩ = some (eol, ⟨rest, eol.pos⟩) :=
  Cursor.next?_cons (by rw [ends]; rfl) rest last

/-! ### Different tokens behind the same ones -/

/-- Cursors in front of what comes behind, with the same tokens left before it. -/
def InFront (tail tail' ahead : List Token) (n : Nat) (c c' : Cursor) : Prop :=
  ∃ left last, left <:+ ahead ∧ left.length = n ∧ c = ⟨left ++ tail, last⟩ ∧
    c' = ⟨left ++ tail', last⟩

/-- Cursors behind an end of the line that is refused. -/
def Past (tail tail' : List Token) (e : Error) (c c' : Cursor) : Prop :=
  ∃ eol rest rest', tail = eol :: rest ∧ tail' = eol :: rest' ∧
    e = .unexpectedToken eol.pos eol.lexeme.render ∧ c = ⟨rest, eol.pos⟩ ∧ c' = ⟨rest', eol.pos⟩

/-- Where two runs with different tokens behind the same ones may fail. -/
def FailsAlike (tail tail' ahead : List Token) (e : Error) (c c' : Cursor) : Prop :=
  (∃ n, InFront tail tail' ahead n c c') ∨ Past tail tail' e c c'

/-- In front of what comes behind, both cursors see the same. -/
theorem InFront.sight (same : SameEnd tail tail') (within : Within tail ahead) {n : Nat}
    {c c' : Cursor} (front : InFront tail tail' ahead n c c') :
    Sight (InFront tail tail' ahead) (FailsAlike tail tail' ahead) (tail ≠ []) (tail ≠ [])
      n c c' := by
  have unread : ∀ e, FailsAlike tail tail' ahead e c c' := fun _ => .inl ⟨n, front⟩
  obtain ⟨left, last, part, rfl, rfl, rfl⟩ := front
  rcases next?_append left last with ⟨skipped, token, later, rfl, found⟩ | behind
  · -- The upcoming token is one of those ahead.
    have inside : later <:+ ahead :=
      (List.suffix_append_of_suffix (List.suffix_cons _ _)).trans part
    have front : InFront tail tail' ahead later.length ⟨later ++ tail, token.pos⟩
        ⟨later ++ tail', token.pos⟩ := ⟨later, token.pos, inside, rfl, rfl, rfl⟩
    refine .token (found tail) (found tail') (unread _) (.inl ⟨_, front⟩)
      (.inl ⟨⟨_, ?_, front⟩, ?_⟩)
    · simp only [List.length_append, List.length_cons]
      omega
    · exact fun line => within line token (part.subset (by simp))
  · cases same with
    | nothing => exact .nothing (behind []) (behind []) (unread _)
    | @line eol ends rest rest' =>
      have next := fun rest => (behind (eol :: rest)).trans (next?_eol ends rest last)
      exact .token (next rest) (next rest') (unread _)
        (.inr ⟨eol, rest, rest', rfl, rfl, rfl, rfl, rfl⟩) (.inr ⟨by simp, ends⟩)

/-- Runs over the same tokens with different ones behind them. -/
def sameEnds (same : SameEnd tail tail') (within : Within tail ahead) : Coupling where
  joined := InFront tail tail' ahead
  fails := FailsAlike tail tail' ahead
  oneLine := tail ≠ []
  flat := tail ≠ []
  sight := InFront.sight same within
  last := by
    rintro n c c' ⟨left, last, -, -, rfl, rfl⟩
    rfl
  skips := by
    rintro across n c c' p ⟨left, last, part, rfl, rfl, rfl⟩
    cases same with
    | line => exact absurd (List.cons_ne_nil _ _) across
    | nothing =>
      have inside := skipFrom_suffix p last left
      have skipped : Cursor.skip p ⟨left ++ [], last⟩ =
          ⟨(Cursor.skipFrom p last left).rest ++ [], (Cursor.skipFrom p last left).last⟩ := by
        simp only [List.append_nil]
        rfl
      exact ⟨_, inside.length_le, _, _, inside.trans part, rfl, skipped, skipped⟩
  few := by
    rintro n c c' ⟨left, last, -, rfl, rfl, rfl⟩
    simp

/-- Runs that are coupled so end alike. -/
theorem Alike.of_ends {same : SameEnd tail tail'} {within : Within tail ahead}
    {told : Nat → α → Prop} {x x' : EStateM.Result Error Cursor α}
    (ended : (sameEnds same within).Ends ahead.length told x x') :
    Alike tail tail' ahead told x x' := by
  -- What was read is what is missing of the tokens ahead.
  cases ended with
  | ok front count holds =>
    obtain ⟨left, last, ⟨read, rfl⟩, rfl, rfl, rfl⟩ := front
    rw [List.length_append] at count
    obtain rfl := Nat.add_right_cancel count
    exact .ok rfl holds
  | error failed =>
    rcases failed with ⟨_, left, last, ⟨read, rfl⟩, -, rfl, rfl⟩ | ⟨eol, rest, rest', rfl, rfl, rfl,
      rfl, rfl⟩
    · exact .error rfl
    · exact .past rfl rfl

/-- A statement of which all tokens are within a line ends alike, and if it is one, then it has a
token. -/
theorem statement_alike (same : SameEnd tail tail') (cpu : Cpu) (within : Within tail ahead)
    (last : Pos) :
    Alike tail tail' ahead (fun n _ => 0 < n) (statement cpu ⟨ahead ++ tail, last⟩)
      (statement cpu ⟨ahead ++ tail', last⟩) := by
  -- Either side of the line is read from the same tokens, so that they are coupled.
  have lax : (sameEnds same within).Lax := ⟨fun n _ _ _ front => .inl ⟨n, front⟩, id⟩
  exact .of_ends (statement_agree lax cpu ⟨ahead, last, List.suffix_refl _, rfl, rfl, rfl⟩
    (Nat.lt_succ_self _))

/-! ### One run -/

section Alone

variable {α : Type} {tokens : List Token} {cursor : Cursor} {told : Nat → α → Prop}

/-- A run over tokens beside itself. -/
def alone (tokens : List Token) : Coupling :=
  sameEnds .nothing (fun line => (line rfl).elim : Within [] tokens)

/-- A run beside itself may fail anywhere. -/
theorem alone_lax : (alone tokens).Lax :=
  ⟨fun n _ _ _ front => .inl ⟨n, front⟩, id⟩

/-- A run beside itself may read over ends of lines. -/
theorem alone_across : ¬ (alone tokens).oneLine :=
  fun line => line rfl

/-- A cursor stands beside itself. -/
theorem alone_joined (cursor : Cursor) :
    (alone cursor.rest).joined cursor.rest.length cursor cursor := by
  -- Nothing stands behind its tokens.
  have same : cursor = ⟨cursor.rest ++ [], cursor.last⟩ := by rw [List.append_nil]
  exact ⟨cursor.rest, cursor.last, List.suffix_refl _, rfl, same, same⟩

/-- A step that succeeds leaves the tokens behind those that it has read. -/
theorem read_of_agree {p : Parse α}
    (agree : (alone cursor.rest).Agree (cursor.rest.length + 1) told p p) {a : α} {after : Cursor}
    (ran : p cursor = .ok a after) :
    ∃ read, cursor.rest = read ++ after.rest ∧ told read.length a := by
  -- The step is run beside itself, with nothing behind its tokens.
  have ends := Alike.of_ends (agree (alone_joined cursor) (Nat.lt_succ_self _))
  rw [ran] at ends
  cases ends with
  | ok split holds => exact ⟨_, by simpa using split, holds⟩

/-- A step that fails leaves some of the tokens. -/
theorem suffix_of_agree {p : Parse α}
    (agree : (alone cursor.rest).Agree (cursor.rest.length + 1) told p p) {e : Error}
    {after : Cursor} (ran : p cursor = .error e after) :
    ∃ read, cursor.rest = read ++ after.rest := by
  -- The step is run beside itself, with nothing behind its tokens.
  have ends := Alike.of_ends (agree (alone_joined cursor) (Nat.lt_succ_self _))
  rw [ran] at ends
  cases ends with
  | error split => exact ⟨_, by simpa using split⟩
  | past none => cases none

/-- Two steps that end alike beside one another are the same one. -/
theorem eq_of_agree {p p' : Parse α}
    (agree : (alone cursor.rest).Agree (cursor.rest.length + 1) told p p') :
    p cursor = p' cursor := by
  -- They give one answer at one place, or one error.
  have ends := Alike.of_ends (agree (alone_joined cursor) (Nat.lt_succ_self _))
  revert ends
  generalize p cursor = x
  generalize p' cursor = x'
  rintro (_ | _ | none)
  · rfl
  · rfl
  · cases none

end Alone

end Parse

end CrossAsm

import CrossAsm.Proofs.Lexeme.Written
import CrossAsm.Proofs.Source.Rows

/-! Where tokens stand. Their positions increase, each line ends with its one newline token, and
every other token stands at the byte where its spelling starts, outside block comments. -/

namespace CrossAsm

/-! ### Lengths -/

namespace Text

/-- The bytes of a text behind another. -/
theorem byteLength_append (first second : List Char) :
    byteLength (first ++ second) = byteLength first + byteLength second := by
  -- The length is a sum over the characters.
  simp [byteLength]

/-- A character takes a byte or more. -/
theorem byteLength_lt_cons (c : Char) (rest : List Char) :
    byteLength rest < byteLength (c :: rest) := by
  -- No character is encoded in nothing.
  have some := c.utf8Size_pos
  simp only [byteLength, List.map_cons, total_cons]
  omega

end Text

/-! ### Block comments -/

/-- What a part of a line does to block comments, with the text behind it: whether one is open
before the part, and whether one is after it. -/
inductive Carries : Bool → List Char → List Char → Bool → Prop
  | nothing {isOpen : Bool} {after : List Char} : Carries isOpen [] after isOpen
  | blank {c : Char} {part after : List Char} {isOpen : Bool} (blank : Text.isBlank c = true)
    (others : Carries false part after isOpen) : Carries false (c :: part) after isOpen
  | lexeme {lexeme : Lexeme} {text part after : List Char} {isOpen : Bool}
    (written : lexeme.Written text (part ++ after)) (others : Carries false part after isOpen) :
    Carries false (text ++ part) after isOpen
  | opens {part after : List Char} {isOpen : Bool} (others : Carries true part after isOpen) :
    Carries false ('/' :: '*' :: part) after isOpen
  | closes {part after : List Char} {isOpen : Bool} (others : Carries false part after isOpen) :
    Carries true ('*' :: '/' :: part) after isOpen
  | inside {c : Char} {part after : List Char} {isOpen : Bool}
    (goesOn : c = '*' → (part ++ after).head? ≠ some '/')
    (others : Carries true part after isOpen) : Carries true (c :: part) after isOpen

/-- What whole lines do to block comments. -/
inductive CarriesLines : Bool → List (List Char) → Bool → Prop
  | nothing {isOpen : Bool} : CarriesLines isOpen [] isOpen
  | line {isOpen middle last : Bool} {line : List Char} {others : List (List Char)}
    (first : Carries isOpen line [] middle) (behind : CarriesLines middle others last) :
    CarriesLines isOpen (line :: others) last

/-- A lexeme and its spelling: no block comment is open behind what stands before it, and its first
character is no white space. -/
structure Lexeme.Stands (lexeme : Lexeme) (isOpen : Bool) (before spelled after : List Char) :
    Prop where
  /-- The spelling is outside block comments. -/
  outside : Carries isOpen before (spelled ++ after) false
  /-- The spelling starts with its first character. -/
  marked : ∃ c ∈ spelled.head?, Text.isBlank c = false
  /-- The spelling is one of the lexeme, and goes no further. -/
  written : lexeme.Written spelled after

/-- No text does nothing to block comments. -/
theorem Carries.eq_of_nil {isOpen isOpen' : Bool} {part after : List Char}
    (carries : Carries isOpen part after isOpen') (none : part = []) : isOpen' = isOpen := by
  -- By induction on what carries: anything but nothing takes a character.
  induction carries with
  | nothing => rfl
  | lexeme _ _ ih => exact ih (List.append_eq_nil_iff.1 none).2
  | _ => cases none

/-! ### Tokens of a line -/

namespace Token

/-- Tokens of a line in order, from a column on and up to another. -/
structure OrderedIn (first last : Nat) (tokens : List Token) : Prop where
  /-- The tokens are between the two columns. -/
  within : ∀ token ∈ tokens, first ≤ token.pos.col ∧ token.pos.col ≤ last
  /-- Each token is before those behind it. -/
  sorted : tokens.Pairwise fun a b => a.pos.col < b.pos.col

variable {first reached last : Nat} {token : Token} {tokens : List Token}

/-- A token alone. -/
theorem OrderedIn.single (after : first ≤ token.pos.col) (before : token.pos.col ≤ last) :
    OrderedIn first last [token] := by
  -- There is no other token to be compared with.
  refine ⟨fun other inside => ?_, List.pairwise_singleton ..⟩
  obtain rfl := List.mem_singleton.1 inside
  exact ⟨after, before⟩

/-- Tokens in order from a column on are so from one before it. -/
theorem OrderedIn.mono (ordered : OrderedIn reached last tokens) (before : first ≤ reached) :
    OrderedIn first last tokens :=
  ⟨fun token inside => (ordered.within token inside).imp_left (Nat.le_trans before),
    ordered.sorted⟩

/-- A token stands before those that start further on. -/
theorem OrderedIn.cons (ordered : OrderedIn (token.pos.col + 1) last tokens)
    (after : first ≤ token.pos.col) (before : token.pos.col ≤ last) :
    OrderedIn first last (token :: tokens) := by
  -- The others start further on than where the first one may end.
  have behind := ordered.mono (Nat.le_succ_of_le after)
  exact ⟨List.forall_mem_cons.2 ⟨⟨after, before⟩, behind.within⟩,
    List.pairwise_cons.2 ⟨fun other inside => (ordered.within other inside).1, ordered.sorted⟩⟩

end Token

namespace SourceLine

variable (line : SourceLine)

/-- A line is left as it carries block comments. -/
theorem tokens_of_carries {isOpen isOpen' : Bool} {part after : List Char}
    (carries : Carries isOpen part after isOpen') (stop : Nat) :
    ∃ stop', (line.tokens isOpen stop (part ++ after)).2 = (line.tokens isOpen' stop' after).2 := by
  -- By induction on what the part does: the line reads on behind each piece of it.
  induction carries generalizing stop with
  | nothing => exact ⟨stop, rfl⟩
  | blank blank _ ih =>
    -- A blank is read past.
    rw [List.cons_append, SourceLine.tokens.eq_def]
    simp only [blank, Bool.false_eq_true, if_false, if_true]
    exact ih _
  | @lexeme lexeme text part after isOpen written others ih =>
    cases silent : lexeme.isComment with
    | false =>
      -- A lexeme is scanned, and the rest of the line goes on behind it.
      obtain ⟨c, more, rfl, mark, noComment, scanned⟩ := written.scan_eq silent
      rw [← List.append_assoc] at noComment scanned
      obtain ⟨stop', tokens⟩ := line.tokens_cons stop mark noComment
      rw [scanned] at tokens
      obtain ⟨stop'', same⟩ := ih stop'
      refine ⟨stop'', ?_⟩
      rw [List.cons_append, List.cons_append, tokens, same]
    | true =>
      -- A comment takes the rest of the line and leaves no block comment open.
      obtain ⟨body, -, rfl, last⟩ := written.of_isComment silent
      obtain ⟨rfl, rfl⟩ := List.append_eq_nil_iff.1 last
      have start : Text.isBlank '/' = false := by decide
      obtain rfl := others.eq_of_nil rfl
      refine ⟨stop, ?_⟩
      rw [List.append_nil, List.append_nil, SourceLine.tokens.eq_def, SourceLine.tokens.eq_def]
      simp only [start, Bool.false_eq_true, if_false]
  | opens _ ih =>
    -- A block comment is opened.
    have start : Text.isBlank '/' = false := by decide
    rw [List.cons_append, List.cons_append, SourceLine.tokens.eq_def]
    simp only [start, Bool.false_eq_true, if_false]
    exact ih _
  | closes _ ih =>
    -- An open one is closed.
    rw [List.cons_append, List.cons_append, SourceLine.tokens.eq_def]
    simp only [if_true]
    exact ih _
  | @inside c part after isOpen goesOn _ ih =>
    -- Inside of a comment any character is read past that does not close it.
    rw [List.cons_append, SourceLine.tokens.eq_def]
    simp only [if_true]
    split
    · rename_i closed
      exact absurd (by rw [closed]; rfl) (goesOn rfl)
    · exact ih _

/-- A slash that starts no comment has neither of the marks of one behind it. -/
theorem uncommenting {c : Char} {rest : List Char}
    (noLine : ∀ more, c = '/' → rest = '/' :: more → False)
    (noBlock : ∀ more, c = '/' → rest = '*' :: more → False) :
    c = '/' → Text.Uncommenting rest := by
  -- The character behind the slash would be the second one of the mark.
  rintro rfl d first
  obtain ⟨more, rfl⟩ := List.head?_eq_some_iff.1 first
  constructor <;> rintro rfl
  · exact noLine more rfl rfl
  · exact noBlock more rfl rfl

/-- A star that closes no comment has no slash behind it. -/
theorem goesOn {c : Char} {rest : List Char}
    (noClose : ∀ more, c = '*' → rest = '/' :: more → False) : c = '*' → rest.head? ≠ some '/' := by
  -- If a slash were behind the star, the comment would be closed.
  rintro rfl slash
  obtain ⟨more, same⟩ := List.head?_eq_some_iff.1 slash
  exact noClose more rfl same

/-- What is read of a line carries block comments as the line is left. -/
theorem carries_tokens (isOpen : Bool) (stop : Nat) (rest : List Char) :
    Carries isOpen rest [] (line.tokens isOpen stop rest).2 := by
  -- Each step of reading takes a piece of one of the kinds.
  fun_induction SourceLine.tokens line isOpen stop rest with
  -- The end of the line.
  | case1 => exact .nothing
  -- A mark that closes a comment, a character inside of one, and a blank.
  | case2 _ _ _ ih => exact .closes ih
  | case3 _ c rest noClose _ ih =>
    refine .inside ?_ ih
    rw [List.append_nil]
    exact goesOn noClose
  | case4 isOpen _ _ _ _ shut blank ih =>
    rw [Bool.not_eq_true] at shut
    rw [shut]
    exact .blank blank ih
  | case5 isOpen _ shut rest =>
    -- A comment up to the end of the line.
    rw [Bool.not_eq_true] at shut
    rw [shut]
    have whole : Carries false ('/' :: '/' :: rest ++ []) [] false := .lexeme .comment .nothing
    rwa [List.append_nil] at whole
  | case6 isOpen _ shut _ _ _ ih =>
    -- A mark that opens a block comment.
    rw [Bool.not_eq_true] at shut
    rw [shut]
    exact .opens ih
  | case7 isOpen _ shut c rest noLine noBlock others open? mark _ scanned ih =>
    -- Any other character starts a lexeme.
    rw [Bool.not_eq_true] at shut mark
    rw [scanned] at ih
    obtain ⟨more, same, written⟩ := Lexeme.written_scan mark (uncommenting noLine noBlock)
    have first : c :: rest = c :: more ++ (Lexeme.scan c rest).2 := congrArg (c :: ·) same
    rw [shut, first]
    exact .lexeme (by rwa [List.append_nil]) ih

/-- A token shows in what is left of the line: it stands where its spelling starts. -/
def Shows (isOpen : Bool) (rest : List Char) (token : Token) : Prop :=
  ∃ before spelled after, rest = before ++ (spelled ++ after) ∧
    token.pos.col = line.column (spelled ++ after) ∧ token.lexeme.Stands isOpen before spelled after

variable {line} in
/-- A token that shows behind some of the line shows in all of it. -/
theorem Shows.behind {isOpen isOpen' : Bool} {rest : List Char} {token : Token}
    (shows : line.Shows isOpen' rest token) (taken : List Char)
    (carries : ∀ part after, part ++ after = rest → Carries isOpen' part after false →
      Carries isOpen (taken ++ part) after false) : line.Shows isOpen (taken ++ rest) token := by
  -- The part in front of the token grows by what was taken.
  obtain ⟨before, spelled, after, rfl, col, outside, marked, written⟩ := shows
  exact ⟨taken ++ before, spelled, after, (List.append_assoc ..).symm, col,
    carries before (spelled ++ after) rfl outside, marked, written⟩

/-- A token of a line ends it, or shows in it. -/
theorem shows_of_mem_tokens (isOpen : Bool) (stop : Nat) (rest : List Char) :
    ∀ token ∈ (line.tokens isOpen stop rest).1, token.lexeme ≠ .newline →
      line.Shows isOpen rest token := by
  -- A token of what is left shows behind what each step takes.
  fun_induction SourceLine.tokens line isOpen stop rest with
  | case1 =>
    -- The end of the line is the only token, and is no lexeme of it.
    intro token inside spoken
    exact absurd (congrArg Token.lexeme (List.mem_singleton.1 inside)) spoken
  | case2 _ rest _ ih =>
    -- Inside of a block comment, or at its end, nothing shows.
    intro token inside spoken
    exact (ih token inside spoken).behind ['*', '/'] fun _ _ _ => .closes
  | case3 _ c rest noClose _ ih =>
    intro token inside spoken
    refine (ih token inside spoken).behind [c] fun part after same => .inside ?_
    rw [same]
    exact goesOn noClose
  | case4 isOpen _ c _ _ shut blank ih =>
    -- Behind a blank it shows as in the rest.
    intro token inside spoken
    rw [Bool.not_eq_true] at shut
    rw [shut]
    exact (ih token inside spoken).behind [c] fun _ _ _ => .blank blank
  | case5 isOpen _ shut rest comment mark col =>
    -- The comment shows from where it starts.
    intro token inside spoken
    rw [Bool.not_eq_true] at shut mark
    rcases List.mem_pair.1 inside with rfl | rfl
    · refine ⟨[], '/' :: '/' :: rest, [], by simp, by simp [token, col], ?_⟩
      exact ⟨shut ▸ .nothing, ⟨'/', rfl, mark⟩, .comment⟩
    · exact absurd rfl spoken
  | case6 isOpen _ shut _ _ _ ih =>
    -- Behind the mark of a block comment it shows as in the rest.
    intro token inside spoken
    rw [Bool.not_eq_true] at shut
    rw [shut]
    exact (ih token inside spoken).behind ['/', '*'] fun _ _ _ => .opens
  | case7 isOpen _ shut c rest noLine noBlock others open? mark col scanned ih =>
    intro token inside spoken
    rw [Bool.not_eq_true] at shut mark
    rw [scanned] at ih
    rw [shut]
    obtain ⟨more, same, written⟩ := Lexeme.written_scan mark (uncommenting noLine noBlock)
    have first : c :: rest = c :: more ++ (Lexeme.scan c rest).2 := congrArg (c :: ·) same
    -- It is the lexeme itself, or one behind it.
    rcases List.mem_cons.1 inside with rfl | inside
    · exact ⟨[], c :: more, _, first, congrArg line.column first, .nothing, ⟨c, rfl, mark⟩,
        written⟩
    · rw [first]
      refine (ih token inside spoken).behind (c :: more) fun part after same others => ?_
      rw [← same] at written
      exact .lexeme written others

/-- Every token of a line stands in its file. -/
theorem file_of_mem_tokens (isOpen : Bool) (stop : Nat) (rest : List Char) :
    ∀ token ∈ (line.tokens isOpen stop rest).1, token.pos.file = line.file := by
  -- By the recursion of scanning: each token is made in the file of its line.
  fun_induction SourceLine.tokens line isOpen stop rest with
  | case1 | case5 => simp [token]
  | case2 _ _ _ ih | case3 _ _ _ _ _ ih | case4 _ _ _ _ _ _ _ ih | case6 _ _ _ _ _ _ ih => exact ih
  | case7 _ _ _ _ _ _ _ others _ _ _ scanned ih =>
    rw [scanned] at ih
    exact List.forall_mem_cons.2 ⟨rfl, ih⟩

/-- A line has its newline token last, and no other. -/
theorem tokens_newline (isOpen : Bool) (stop : Nat) (rest : List Char) :
    ∃ body newline, (line.tokens isOpen stop rest).1 = body ++ [newline] ∧
      newline.lexeme = .newline ∧ ∀ token ∈ body, token.lexeme ≠ .newline := by
  -- Only the end of the line adds a newline, for no lexeme that is scanned is one.
  fun_induction SourceLine.tokens line isOpen stop rest with
  | case1 => exact ⟨[], _, rfl, rfl, List.forall_mem_nil _⟩
  | case2 _ _ _ ih | case3 _ _ _ _ _ ih | case4 _ _ _ _ _ _ _ ih | case6 _ _ _ _ _ _ ih => exact ih
  | case5 _ _ _ rest comment _ col =>
    refine ⟨[line.token comment col], _, rfl, rfl, ?_⟩
    rintro token (_ | ⟨_, ⟨⟩⟩)
    exact Lexeme.noConfusion
  | case7 _ _ _ c rest noLine noBlock others _ mark col scanned ih =>
    rw [scanned] at ih
    obtain ⟨body, newline, rfl, last, each⟩ := ih
    rw [Bool.not_eq_true] at mark
    obtain ⟨_, _, written⟩ := Lexeme.written_scan mark (uncommenting noLine noBlock)
    exact ⟨_ :: body, newline, rfl, last, List.forall_mem_cons.2 ⟨written.ne_newline, each⟩⟩

/-- Reading on moves to the right. -/
theorem column_lt {early late : List Char} (within : Text.byteLength early ≤ line.width)
    (shorter : Text.byteLength late < Text.byteLength early) :
    line.column early + 1 ≤ line.column late := by
  -- The column is what is left of the width.
  unfold SourceLine.column
  omega

/-- No column is beyond the end of the line. -/
theorem column_le (rest : List Char) : line.column rest ≤ line.width :=
  Nat.sub_le _ _

/-- The tokens of a line stand in order and within it, from the column on that was reached. -/
theorem tokens_ordered (isOpen : Bool) (stop : Nat) (rest : List Char)
    (within : Text.byteLength rest ≤ line.width) (reached : stop ≤ line.column rest) :
    Token.OrderedIn stop line.width (line.tokens isOpen stop rest).1 := by
  -- Each step takes a byte or more, so that the column is larger behind it.
  fun_induction SourceLine.tokens line isOpen stop rest with
  -- The end of the line is behind all that was read.
  | case1 => exact .single (Nat.le_refl _) (Nat.le_trans reached (line.column_le _))
  | case2 _ rest col ih =>
    have shorter := Nat.lt_trans (Text.byteLength_lt_cons '/' rest) (Text.byteLength_lt_cons '*' _)
    exact (ih (by omega) (line.column_lt within shorter)).mono (by omega)
  | case3 _ c rest _ col ih =>
    have shorter := Text.byteLength_lt_cons c rest
    exact (ih (by omega) (line.column_lt within shorter)).mono (by omega)
  | case4 _ _ c rest col _ _ ih =>
    have shorter := Text.byteLength_lt_cons c rest
    exact (ih (by omega) (line.column_lt within shorter)).mono (by omega)
  | case5 _ _ _ rest comment _ col =>
    -- The comment is followed by the end of the line only.
    have shorter := Text.byteLength_lt_cons '/' ('/' :: rest)
    have inside := Nat.le_trans (line.column_lt within shorter) (line.column_le _)
    have newline : Token.OrderedIn (col + 1) line.width [line.token .newline (col + 1)] :=
      .single (Nat.le_refl _) inside
    exact newline.cons reached (line.column_le _)
  | case6 _ _ _ rest _ col ih =>
    have shorter := Nat.lt_trans (Text.byteLength_lt_cons '*' rest) (Text.byteLength_lt_cons '/' _)
    exact (ih (by omega) (line.column_lt within shorter)).mono (by omega)
  | case7 _ _ _ c rest noLine noBlock others _ mark col scanned ih =>
    -- The lexeme stands here, and the others behind it.
    rw [scanned] at ih
    rw [Bool.not_eq_true] at mark
    obtain ⟨more, same, -⟩ := Lexeme.written_scan mark (uncommenting noLine noBlock)
    have taken := congrArg Text.byteLength same
    rw [Text.byteLength_append] at taken
    have shorter : Text.byteLength (Lexeme.scan c rest).2 < Text.byteLength (c :: rest) :=
      Nat.lt_of_le_of_lt (by omega) (Text.byteLength_lt_cons c rest)
    exact (ih (by omega) (line.column_lt within shorter)).cons reached (line.column_le _)

end SourceLine

/-! ### Tokens of a text -/

/-- The order of positions in a file. -/
def Pos.Before (a b : Pos) : Prop :=
  a.row < b.row ∨ a.row = b.row ∧ a.col < b.col

namespace Token

variable {file : String} {row : Nat} {inBlock : Bool}

/-- A token that stands in a row of a text: at the byte where its spelling starts, outside block
comments. -/
def StandsIn (lines : List (List Char)) (i : Nat) (token : Token) : Prop :=
  ∃ isOpen before spelled after, lines[i]? = some (before ++ (spelled ++ after)) ∧
    CarriesLines false (lines.take i) isOpen ∧ token.pos.col = Text.byteLength before ∧
    token.lexeme.Stands isOpen before spelled after

/-- Lines are left as they carry block comments. -/
theorem openBehind_of_carries {isOpen : Bool} {lines : List (List Char)}
    (carries : CarriesLines inBlock lines isOpen) : openBehind file row inBlock lines = isOpen := by
  -- By induction on the lines, each of which is left as the next one is entered.
  induction carries generalizing row with
  | nothing => rfl
  | @line _ middle last line others first _ ih =>
    obtain ⟨stop, same⟩ :=
      SourceLine.tokens_of_carries ⟨file, row, Text.byteLength line⟩ first 0
    rw [List.append_nil, SourceLine.tokens] at same
    rw [openBehind, same]
    exact ih

/-- Lines carry block comments as they are left. -/
theorem carries_openBehind (lines : List (List Char)) :
    CarriesLines inBlock lines (openBehind file row inBlock lines) := by
  -- By induction on the lines, each of which leaves the state for the next.
  induction lines generalizing row inBlock with
  | nil => exact .nothing
  | cons line others ih => exact .line (SourceLine.carries_tokens _ _ _ _) ih

/-- The tokens of lines around one of them. -/
theorem ofLines_around {lines : List (List Char)} {i : Nat} {line : List Char}
    (found : lines[i]? = some line) :
    ofLines file row inBlock lines = ofLines file row inBlock (lines.take i) ++
      (SourceLine.tokens ⟨file, row + i, Text.byteLength line⟩
        (openBehind file row inBlock (lines.take i)) 0 line).1 ++
      ofLines file (row + i + 1) (openBehind file row inBlock (lines.take (i + 1)))
        (lines.drop (i + 1)) := by
  -- The lines are cut before the line and behind it.
  obtain ⟨inside, rfl⟩ := List.getElem?_eq_some_iff.1 found
  have before : (lines.take i).length = i := by simp [Nat.le_of_lt inside]
  have split : lines = lines.take i ++ (lines[i] :: lines.drop (i + 1)) := by simp
  have first : lines.take (i + 1) = lines.take i ++ [lines[i]] := by simp
  conv => lhs; rw [split]
  rw [ofLines_append, before, ofLines, first, openBehind_append, before]
  simp only [openBehind, List.append_assoc]

/-- A token of lines is one of a line, at its row. -/
theorem mem_ofLines {lines : List (List Char)} {token : Token}
    (inside : token ∈ ofLines file row inBlock lines) :
    ∃ i line, lines[i]? = some line ∧
      token ∈ (SourceLine.tokens ⟨file, row + i, Text.byteLength line⟩
        (openBehind file row inBlock (lines.take i)) 0 line).1 := by
  -- By induction on the lines; the row is counted from the first of them.
  induction lines generalizing row inBlock with
  | nil => cases inside
  | cons line others ih =>
    rcases List.mem_append.1 inside with here | later
    · exact ⟨0, line, rfl, here⟩
    · obtain ⟨i, other, found, there⟩ := ih later
      refine ⟨i + 1, other, found, ?_⟩
      rwa [← Nat.add_assoc, Nat.add_right_comm]

/-- The tokens of lines are in the order of their positions. -/
theorem ofLines_ordered (lines : List (List Char)) :
    (ofLines file row inBlock lines).Pairwise fun a b => a.pos.Before b.pos := by
  -- Within a line the columns increase, and from line to line the rows.
  induction lines generalizing row inBlock with
  | nil => exact .nil
  | cons line others ih =>
    have inRow := SourceLine.row_of_mem_tokens ⟨file, row, Text.byteLength line⟩ inBlock 0 line
    have ordered := SourceLine.tokens_ordered ⟨file, row, Text.byteLength line⟩ inBlock 0 line
      (Nat.le_refl _) (Nat.zero_le _)
    refine List.pairwise_append.2 ⟨?_, ih, fun a first b behind => .inl ?_⟩
    · refine ordered.sorted.imp_of_mem fun first second smaller => .inr ⟨?_, smaller⟩
      rw [inRow _ first, inRow _ second]
    · obtain ⟨k, -, -, stands⟩ := row_of_mem_ofLines behind
      rw [inRow a first, stands]
      exact Nat.lt_of_lt_of_le (Nat.lt_succ_self row) (Nat.le_add_right _ _)

end Token

/-- No line has a newline in it. -/
theorem Text.newline_not_mem_lines (text : List Char) : ∀ line ∈ lines text, '\n' ∉ line := by
  -- By the recursion that cuts the text, which drops every newline.
  fun_induction lines text with
  | case1 => exact List.forall_mem_nil _
  | case2 rest ih | case3 rest ih => exact List.forall_mem_cons.2 ⟨by simp, ih⟩
  | case4 c rest newline => simpa using Ne.symm newline
  | case5 c rest newline _ line others some ih =>
    rw [some] at ih
    rw [List.forall_mem_cons] at ih ⊢
    exact ⟨by simpa using ⟨Ne.symm newline, ih.1⟩, ih.2⟩

/-- Only the empty text has no lines. -/
theorem Text.eq_nil_of_lines {text : List Char} (none : lines text = []) : text = [] := by
  -- Each character either ends a line or stands in one.
  fun_cases Text.lines text with
  | case1 => rfl
  | case2 => cases none
  | case3 => cases none
  | case4 c rest newline noReturn empty =>
    rw [Text.lines, empty] at none
    · cases none
    · exact newline
    · exact noReturn
  | case5 c rest newline noReturn line others some =>
    rw [Text.lines, some] at none
    · cases none
    · exact newline
    · exact noReturn

/-- A text that ends with a newline, if it ends at all, has its lines whatever follows. -/
theorem Text.lines_append {text : List Char} (ended : ∀ c ∈ text.getLast?, c = '\n')
    (more : List Char) : lines (text ++ more) = lines text ++ lines more := by
  -- What is left of a text that ends with a newline ends with it, too.
  have onward : ∀ {c : Char} {rest : List Char}, (∀ d ∈ (c :: rest).getLast?, d = '\n') →
      ∀ d ∈ rest.getLast?, d = '\n' := by
    intro c rest ended d last
    refine ended d ?_
    rw [List.getLast?_cons, Option.mem_def.1 last]
    rfl
  -- Only the last line could go on in the text behind, and a newline ends it.
  fun_induction Text.lines text with
  | case1 => rfl
  | case2 rest ih => exact congrArg ([] :: ·) (ih (onward ended))
  | case3 rest ih => exact congrArg ([] :: ·) (ih (onward (onward ended)))
  | case4 c rest newline _ none ih =>
    -- Nothing stands behind the character, which is no newline.
    obtain rfl := eq_nil_of_lines none
    exact absurd (ended c rfl) newline
  | case5 c rest newline noReturn line others some ih =>
    cases rest with
    | nil => cases some
    | cons d rest =>
      rw [List.cons_append, List.cons_append, Text.lines, ← List.cons_append, ih (onward ended),
        some]
      · rfl
      · exact newline
      · intro behind return_ same
        obtain ⟨rfl, -⟩ := List.cons.inj same
        exact noReturn rest return_ rfl

namespace Token

variable (file : String) (row : Nat)

/-- The tokens of a row are those of its line. -/
theorem filter_row {lines : List (List Char)} {i : Nat} {line : List Char}
    (found : lines[i]? = some line) :
    (ofLines file row false lines).filter (·.pos.row = row + i) =
      (SourceLine.tokens ⟨file, row + i, Text.byteLength line⟩
        (openBehind file row false (lines.take i)) 0 line).1 := by
  -- The lines before it have smaller rows, and the lines behind it larger ones.
  have before : (ofLines file row false (lines.take i)).filter (·.pos.row = row + i) = [] := by
    refine List.filter_eq_nil_iff.2 fun token inside => ?_
    obtain ⟨k, other, there, stands⟩ := row_of_mem_ofLines inside
    have early := (List.getElem?_eq_some_iff.1 there).1
    rw [List.length_take] at early
    rw [decide_eq_true_eq]
    omega
  have behind : ∀ isOpen, (ofLines file (row + i + 1) isOpen (lines.drop (i + 1))).filter
      (·.pos.row = row + i) = [] := by
    intro isOpen
    refine List.filter_eq_nil_iff.2 fun token inside => ?_
    obtain ⟨k, -, -, stands⟩ := row_of_mem_ofLines inside
    rw [decide_eq_true_eq]
    omega
  have here := SourceLine.row_of_mem_tokens ⟨file, row + i, Text.byteLength line⟩
    (openBehind file row false (lines.take i)) 0 line
  rw [ofLines_around found, List.filter_append, List.filter_append, before, behind,
    List.nil_append, List.append_nil]
  exact List.filter_eq_self.2 fun token inside => decide_eq_true (here token inside)

/-- Positions of tokens increase and are true. The tokens of a text are in the order of their rows
and columns. Each of them is in the row of a line, and stands there at the byte where its spelling
starts, on a character that is not blank and outside block comments, unless it is the newline token
that each line has, once, as the last of its row. And a text that ends with a newline and leaves no
block comment open has its tokens whatever follows, and what follows has those it has from the next
row on. -/
theorem positions_true (text : String) :
    (ofText file row text).Pairwise (fun a b => a.pos.Before b.pos) ∧
    (∀ token ∈ ofText file row text, token.pos.file = file ∧
      ∃ i < (Text.lines text.toList).length, token.pos.row = row + i ∧
        (token.lexeme ≠ .newline → token.StandsIn (Text.lines text.toList) i)) ∧
    (∀ i < (Text.lines text.toList).length, ∃ body newline,
      (ofText file row text).filter (·.pos.row = row + i) = body ++ [newline] ∧
        newline.lexeme = .newline ∧ ∀ token ∈ body, token.lexeme ≠ .newline) ∧
    (text.toList.getLast? = some '\n' → CarriesLines false (Text.lines text.toList) false →
      ∀ more : String, ofText file row (text ++ more) =
        ofText file row text ++ ofText file (row + (Text.lines text.toList).length) more) := by
  -- Order, place, end of row and what follows are shown one by one.
  refine ⟨ofLines_ordered _, fun token inside => ?_, fun i within => ?_,
    fun ended closed more => ?_⟩
  · obtain ⟨i, line, found, there⟩ := mem_ofLines inside
    have within := (List.getElem?_eq_some_iff.1 found).1
    refine ⟨SourceLine.file_of_mem_tokens _ _ _ _ token there, i, within,
      SourceLine.row_of_mem_tokens _ _ _ _ token there, fun spoken => ?_⟩
    obtain ⟨before, spelled, after, rfl, col, stands⟩ :=
      SourceLine.shows_of_mem_tokens _ _ _ _ token there spoken
    refine ⟨_, before, spelled, after, found, carries_openBehind _, ?_, stands⟩
    rw [col, SourceLine.column, Text.byteLength_append, Nat.add_sub_cancel_right]
  · have found := List.getElem?_eq_getElem within
    rw [ofText, filter_row file row found]
    exact SourceLine.tokens_newline ..
  · have each : ∀ c ∈ text.toList.getLast?, c = '\n' := by
      rintro c last
      rw [ended] at last
      exact (Option.some.inj last).symm
    rw [ofText, String.toList_append, Text.lines_append each, ofLines_append,
      openBehind_of_carries closed]
    rfl

/-- A block comment over two lines, with letters of two bytes in it and before it, and a number. -/
def commented : String :=
  "é /* é\né */ $1f\n"

/-- A text behind it has the tokens that it has on its own. -/
theorem commented_positions :
    ofText "a" 3 (commented ++ "\"é\" /*") =
      ofText "a" 3 commented ++ ofText "a" 5 "\"é\" /*" := by
  -- No comment is open at the end, which is checked by running over the lines.
  have closed : openBehind "a" 3 false (Text.lines commented.toList) = false := by
    decide +kernel
  have carries : CarriesLines false (Text.lines commented.toList) false := by
    have carried : CarriesLines false (Text.lines commented.toList)
        (openBehind "a" 3 false (Text.lines commented.toList)) := carries_openBehind _
    rwa [closed] at carried
  obtain ⟨-, -, -, parts⟩ := positions_true "a" 3 commented
  exact parts (by decide) carries "\"é\" /*"

end Token

end CrossAsm

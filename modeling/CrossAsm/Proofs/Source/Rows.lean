import Mathlib.Data.List.Chain
import CrossAsm.Source
import CrossAsm.Proofs.Steps

/-! Splitting keeps the rows of a file. Each row is a directive or a line of one chunk, and lexing
the chunks from the rows where they start gives the tokens of the file without its directives, unless
a block comment runs into one. -/

namespace CrossAsm

/-! ### Lines -/

namespace Text

/-- Lines as a text in which a newline ends each of them. -/
def joined (lines : List (List Char)) : List Char :=
  lines.flatMap (· ++ ['\n'])

/-- A character that ends no line is put in front of the first one. -/
theorem lines_push {c : Char} (newline : c ≠ '\n') (return_ : c ≠ '\r') (rest : List Char) :
    lines (c :: rest) = (c :: (lines rest).headD []) :: (lines rest).tail := by
  -- The lines of the rest are there, and the first of them grows.
  rw [lines]
  · cases lines rest <;> rfl
  · exact newline
  · exact fun _ here _ => return_ here

/-- A line is what stands before the first newline. -/
theorem lines_cons {line : List Char} (newline : '\n' ∉ line) (return_ : '\r' ∉ line)
    (rest : List Char) : lines (line ++ '\n' :: rest) = line :: lines rest := by
  -- By induction on the line.
  induction line with
  | nil => rfl
  | cons c others ih =>
    rw [List.mem_cons, not_or] at newline return_
    rw [List.cons_append, lines_push (Ne.symm newline.1) (Ne.symm return_.1),
      ih newline.2 return_.2]
    rfl

/-- Lines that are joined are read back. -/
theorem lines_joined {rows : List (List Char)}
    (plain : ∀ line ∈ rows, '\n' ∉ line ∧ '\r' ∉ line) : lines (joined rows) = rows := by
  -- By induction on the lines.
  induction rows with
  | nil => rfl
  | cons line others ih =>
    rw [List.forall_mem_cons] at plain
    have split : joined (line :: others) = line ++ '\n' :: joined others := by simp [joined]
    rw [split, lines_cons plain.1.1 plain.1.2, ih plain.2]

/-- No end of line stands in a line of a text without carriage returns. -/
theorem plain_of_mem_lines {text : List Char} (unix : '\r' ∉ text) :
    ∀ line ∈ lines text, '\n' ∉ line ∧ '\r' ∉ line := by
  -- A character is put in front of the first line only if it ends none.
  induction text with
  | nil => exact nofun
  | cons c rest ih =>
    rw [List.mem_cons, not_or] at unix
    have each := ih unix.2
    by_cases newline : c = '\n'
    · subst newline
      exact List.forall_mem_cons.2 ⟨by simp, each⟩
    · rw [lines_push newline (Ne.symm unix.1)]
      have first : '\n' ∉ (lines rest).headD [] ∧ '\r' ∉ (lines rest).headD [] := by
        cases found : lines rest with
        | nil => simp
        | cons line others => exact each line (by simp [found])
      refine List.forall_mem_cons.2 ⟨?_, fun line inside => each line (List.mem_of_mem_tail inside)⟩
      simp only [List.mem_cons, not_or]
      exact ⟨⟨Ne.symm newline, first.1⟩, unix.1, first.2⟩

end Text

/-! ### Tokens of lines -/

/-- Every token of a line stands in its row. -/
theorem SourceLine.row_of_mem_tokens (line : SourceLine) (inBlock : Bool) (stop : Nat)
    (rest : List Char) :
    ∀ token ∈ (line.tokens inBlock stop rest).1, token.pos.row = line.row := by
  -- By induction on the scanning; a token has the row of its line.
  fun_induction SourceLine.tokens line inBlock stop rest with
  | case1 | case5 => simp [SourceLine.token]
  | case2 _ _ _ ih | case3 _ _ _ _ _ ih | case4 _ _ _ _ _ _ _ ih | case6 _ _ _ _ _ _ ih => exact ih
  | case7 _ _ _ _ _ _ _ others _ _ _ scanned ih =>
    rw [scanned] at ih
    exact List.forall_mem_cons.2 ⟨rfl, ih⟩

namespace Token

/-- Whether a block comment is open behind lines, the first of them at a row. -/
def openBehind (file : String) (row : Nat) (inBlock : Bool) : List (List Char) → Bool
  | [] => inBlock
  | line :: others =>
    openBehind file (row + 1)
      (SourceLine.tokens ⟨file, row, Text.byteLength line⟩ inBlock 0 line).2 others

variable {file : String} {row : Nat} {inBlock : Bool}

/-- The tokens of lines behind lines. -/
theorem ofLines_append (lines others : List (List Char)) :
    ofLines file row inBlock (lines ++ others) = ofLines file row inBlock lines ++
      ofLines file (row + lines.length) (openBehind file row inBlock lines) others := by
  -- What one line leaves open is open for the next.
  induction lines generalizing row inBlock with
  | nil => rfl
  | cons line lines ih =>
    simp only [List.cons_append, ofLines, openBehind, ih, List.append_assoc, List.length_cons,
      Nat.add_assoc, Nat.add_comm 1]

/-- What is open behind lines behind lines. -/
theorem openBehind_append (lines others : List (List Char)) :
    openBehind file row inBlock (lines ++ others) =
      openBehind file (row + lines.length) (openBehind file row inBlock lines) others := by
  -- By induction on the lines in front.
  induction lines generalizing row inBlock with
  | nil => rfl
  | cons line lines ih =>
    simp only [List.cons_append, openBehind, ih, List.length_cons, Nat.add_assoc, Nat.add_comm 1]

/-- Every token of lines stands in one of their rows. -/
theorem row_of_mem_ofLines {lines : List (List Char)} {token : Token}
    (inside : token ∈ ofLines file row inBlock lines) :
    ∃ k line, lines[k]? = some line ∧ token.pos.row = row + k := by
  -- By induction on the lines.
  induction lines generalizing row inBlock with
  | nil => cases inside
  | cons line others ih =>
    simp only [ofLines, List.mem_append] at inside
    rcases inside with here | later
    · exact ⟨0, line, rfl, SourceLine.row_of_mem_tokens _ _ _ _ token here⟩
    · obtain ⟨k, other, found, stands⟩ := ih later
      exact ⟨k + 1, other, found, by omega⟩

end Token

/-! ### Pieces of source -/

/-- Whether a piece of source is code. -/
def Input.isCode : Input → Bool
  | .code _ => true
  | _ => false

/-- What a row of a file holds: a line of code, or a directive from a column on. -/
inductive RowContent where
  | code (line : List Char)
  | directive (col : Nat)
  deriving DecidableEq

/-- A row of a file. -/
structure Row where
  /-- The name of the file. -/
  file : String
  /-- The number of the row. -/
  row : Nat
  /-- What it holds. -/
  content : RowContent
  deriving DecidableEq

/-- The rows of lines of code, the first of them at a row. -/
def Row.ofCode (file : String) (row : Nat) : List (List Char) → List Row
  | [] => []
  | line :: others => ⟨file, row, .code line⟩ :: ofCode file (row + 1) others

/-- The rows that a piece of source stands for. -/
def Input.rows : Input → List Row
  | .code chunk => Row.ofCode chunk.file chunk.row (Text.lines chunk.text.toList)
  | .directive _ pos => [⟨pos.file, pos.row, .directive pos.col⟩]
  | .fileBegin _ | .fileEnd _ => []

/-- The tokens of a piece of source. -/
def Input.tokens : Input → List Token
  | .code chunk => Token.ofText chunk.file chunk.row chunk.text
  | _ => []

namespace Source

/-- Whether a line is a directive: its first character that is not blank is `#`. -/
def isDirective (line : List Char) : Bool :=
  (Text.trimStart line).head? == some '#'

/-- The column of the first character of a line that is not blank. -/
def firstColumn (line : List Char) : Nat :=
  Text.byteLength line - Text.byteLength (Text.trimStart line)

/-- What a line holds as a row. -/
def contentOf (line : List Char) : RowContent :=
  if isDirective line then .directive (firstColumn line) else .code line

/-- The rows of lines, the first of them at a row. -/
def rowsFrom (file : String) (row : Nat) : List (List Char) → List Row
  | [] => []
  | line :: others => ⟨file, row, contentOf line⟩ :: rowsFrom file (row + 1) others

/-- The rows of a text. -/
def rowsOf (file text : String) : List Row :=
  rowsFrom file 0 (Text.lines text.toList)

/-- A line, or an empty one in place of a directive. -/
def blankedLine (line : List Char) : List Char :=
  if isDirective line then [] else line

/-- A text with an empty line in place of each directive. -/
def blanked (text : String) : String :=
  String.ofList (Text.joined ((Text.lines text.toList).map blankedLine))

/-- Whether a row of a text is a directive. -/
def isDirectiveRow (text : String) (row : Nat) : Bool :=
  ((Text.lines text.toList)[row]?).any isDirective

/-- How lines from a row on are split: into directives, and chunks that are as long as can be. -/
inductive Splits (file : String) : Nat → List (List Char) → List Input → Prop
  | ends {row : Nat} : Splits file row [] [.fileEnd file]
  | directive {row : Nat} {line : List Char} {others : List (List Char)} {d : Directive}
    {rest : List Input} (marked : isDirective line = true)
    (behind : Splits file (row + 1) others rest) :
    Splits file row (line :: others) (.directive d ⟨file, row, firstColumn line⟩ :: rest)
  | code {row : Nat} {lines others : List (List Char)} {rest : List Input} (some : lines ≠ [])
    (unmarked : ∀ line ∈ lines, isDirective line = false)
    (longest : ∀ line ∈ others.head?, isDirective line = true)
    (behind : Splits file (row + lines.length) others rest) :
    Splits file row (lines ++ others)
      (.code ⟨file, row, String.ofList (Text.joined lines)⟩ :: rest)

/-- The chunk of lines that were gathered from a row on. -/
def gathered (file : String) (row : Nat) (lines : List (List Char)) : Option Chunk :=
  if lines = [] then none else some ⟨file, row, String.ofList (Text.joined lines)⟩

variable {load : Loader} {file : String} {row : Nat} {lines : List (List Char)}
  {inputs : List Input}

/-- One more line is gathered. -/
theorem addLine_gathered (line : List Char) :
    some (addLine file (row + lines.length) line (gathered file row lines)) =
      gathered file row (lines ++ [line]) := by
  -- The line is the first one or comes behind others.
  unfold gathered addLine
  by_cases none : lines = []
  · subst none
    simp [Text.joined, String.ofList_append]
  · simp [none, Text.joined, String.ofList_append, String.append_assoc]

/-- A line that is no directive is gathered. -/
theorem splitLines_code {line : List Char} (unmarked : isDirective line = false)
    (chunk : Option Chunk) (others : List (List Char)) :
    splitLines load file row chunk (line :: others) =
      splitLines load file (row + 1) (some (addLine file row line chunk)) others := by
  -- The line does not start with the mark.
  rw [splitLines]
  split
  · rename_i body trimmed
    simp [isDirective, trimmed] at unmarked
  · rfl

/-- A directive stands behind the chunk before it. -/
theorem splitLines_directive {line : List Char} (marked : isDirective line = true)
    {chunk : Option Chunk} {others : List (List Char)}
    (ran : splitLines load file row chunk (line :: others) = .ok inputs) :
    ∃ d rest, splitLines load file (row + 1) none others = .ok rest ∧
      inputs = flush chunk ++ .directive d ⟨file, row, firstColumn line⟩ :: rest := by
  -- The line starts with the mark, so that it is read as a directive.
  rw [splitLines] at ran
  split at ran
  · rename_i body trimmed
    simp only [except_bind_eq_ok, except_pure_eq_ok] at ran
    obtain ⟨d, -, rest, behind, rfl⟩ := ran
    exact ⟨d, rest, behind, by rw [firstColumn, trimmed]⟩
  · rename_i other
    simp only [isDirective, beq_iff_eq, List.head?_eq_some_iff] at marked
    obtain ⟨body, trimmed⟩ := marked
    exact absurd trimmed (other body)

/-- What was gathered, and what is split behind it. -/
theorem Splits.flush {others : List (List Char)} {rest : List Input}
    (unmarked : ∀ line ∈ lines, isDirective line = false)
    (longest : ∀ line ∈ others.head?, isDirective line = true)
    (behind : Splits file (row + lines.length) others rest) :
    Splits file row (lines ++ others) (Source.flush (gathered file row lines) ++ rest) := by
  -- Either nothing was gathered, or it is one chunk.
  by_cases none : lines = []
  · subst none
    simpa [gathered, Source.flush] using behind
  · have split := Splits.code none unmarked longest behind
    simpa [gathered, none, Source.flush] using split

/-- Lines are split into directives, and chunks that are as long as can be. -/
theorem splits_of_splitLines {others : List (List Char)}
    (unmarked : ∀ line ∈ lines, isDirective line = false)
    (ran : splitLines load file (row + lines.length) (gathered file row lines) others =
      .ok inputs) :
    Splits file row (lines ++ others) inputs := by
  -- By induction on what is left, whatever was gathered before it.
  induction others generalizing row lines inputs with
  | nil =>
    cases ran
    exact .flush unmarked nofun .ends
  | cons line others ih =>
    cases marked : isDirective line with
    | true =>
      obtain ⟨d, rest, late, rfl⟩ := splitLines_directive marked ran
      have behind : Splits file (row + lines.length + 1) ([] ++ others) rest :=
        ih nofun (by simpa [gathered] using late)
      refine .flush unmarked ?_ (.directive marked behind)
      rintro _ ⟨⟩
      exact marked
    | false =>
      rw [splitLines_code marked, addLine_gathered] at ran
      have longer : row + lines.length + 1 = row + (lines ++ [line]).length := by
        simp [Nat.add_assoc]
      rw [longer] at ran
      have split := ih (by simpa [or_imp, forall_and, marked] using unmarked) ran
      simpa using split

/-! ### What the pieces hold -/

/-- Nothing but chunks and directives stands before the end of the file. -/
theorem Splits.shape (splits : Splits file row lines inputs) :
    ∃ middle, inputs = middle ++ [.fileEnd file] ∧
      ∀ input ∈ middle, input.isCode = true ∨ ∃ d pos, input = .directive d pos := by
  -- By induction on the splitting.
  induction splits with
  | ends => exact ⟨[], rfl, nofun⟩
  | directive _ _ ih =>
    obtain ⟨middle, rfl, each⟩ := ih
    exact ⟨_ :: middle, rfl, List.forall_mem_cons.2 ⟨.inr ⟨_, _, rfl⟩, each⟩⟩
  | code _ _ _ _ ih =>
    obtain ⟨middle, rfl, each⟩ := ih
    exact ⟨_ :: middle, rfl, List.forall_mem_cons.2 ⟨.inl rfl, each⟩⟩

/-- Lines that do not start with code are not split into code first. -/
theorem Splits.head_not_code (splits : Splits file row lines inputs)
    (marked : ∀ line ∈ lines.head?, isDirective line = true) :
    ∀ input ∈ inputs.head?, input.isCode = false := by
  -- By how the lines are split first.
  cases splits with
  | ends | directive =>
    rintro _ ⟨⟩
    rfl
  | @code _ lines _ _ some unmarked =>
    -- The first line of a chunk is none of the directives.
    obtain ⟨first, more, rfl⟩ := List.exists_cons_of_ne_nil some
    have isMarked := marked first rfl
    rw [unmarked first (List.mem_cons_self ..)] at isMarked
    cases isMarked

/-- No chunk follows a chunk. -/
theorem Splits.apart (splits : Splits file row lines inputs) :
    inputs.IsChain fun a b => ¬ (a.isCode = true ∧ b.isCode = true) := by
  -- By induction on the splitting; a chunk goes as far as it can.
  induction splits with
  | ends => exact List.isChain_singleton _
  | directive _ _ ih => exact List.isChain_cons.2 ⟨fun _ _ both => (nomatch both.1), ih⟩
  | code _ _ longest behind ih =>
    refine List.isChain_cons.2 ⟨fun next first both => ?_, ih⟩
    rw [behind.head_not_code longest next first] at both
    cases both.2

/-- Lines of code are the rows of a chunk of them. -/
theorem rowsFrom_append (unmarked : ∀ line ∈ lines, isDirective line = false)
    (others : List (List Char)) :
    rowsFrom file row (lines ++ others) =
      Row.ofCode file row lines ++ rowsFrom file (row + lines.length) others := by
  -- By induction on the lines.
  induction lines generalizing row with
  | nil => rfl
  | cons line lines ih =>
    rw [List.forall_mem_cons] at unmarked
    simp [rowsFrom, contentOf, Row.ofCode, unmarked.1, ih unmarked.2, Nat.add_assoc, Nat.add_comm 1]

/-- The pieces stand for the rows, each of them for its own and in order. -/
theorem Splits.rows (splits : Splits file row lines inputs)
    (plain : ∀ line ∈ lines, '\n' ∉ line ∧ '\r' ∉ line) :
    inputs.flatMap Input.rows = rowsFrom file row lines := by
  -- By induction on the splitting.
  induction splits with
  | ends => rfl
  | directive marked _ ih =>
    rw [List.forall_mem_cons] at plain
    simp [Input.rows, rowsFrom, contentOf, marked, ih plain.2]
  | code _ unmarked _ _ ih =>
    rw [List.forall_mem_append] at plain
    rw [rowsFrom_append unmarked, List.flatMap_cons, ih plain.2]
    simp [Input.rows, Text.lines_joined plain.1]

/-- Blanking leaves lines of code alone. -/
theorem map_blankedLine (unmarked : ∀ line ∈ lines, isDirective line = false) :
    lines.map blankedLine = lines := by
  -- No line is a directive, and only those are blanked.
  refine (List.map_congr_left fun line inside => ?_).trans lines.map_id
  simp [blankedLine, unmarked line inside]

/-- The tokens of the chunks are those of the lines with the directives blanked, but for the
newlines of the directives, if no block comment is open where one of these starts. -/
theorem Splits.tokens (splits : Splits file row lines inputs)
    (plain : ∀ line ∈ lines, '\n' ∉ line ∧ '\r' ∉ line) (marked : Nat → Bool)
    (marks : ∀ k line, lines[k]? = some line → marked (row + k) = isDirective line)
    (closed : ∀ k line, lines[k]? = some line → isDirective line = true →
      Token.openBehind file row false ((lines.map blankedLine).take k) = false) :
    inputs.flatMap Input.tokens =
      (Token.ofLines file row false (lines.map blankedLine)).filter
        fun token => !(token.lexeme = .newline && marked token.pos.row) := by
  -- By induction on the splitting, with the rows of the other lines shifted.
  induction splits with
  -- No line is left.
  | ends => rfl
  | @directive row line others d rest isMarked behind ih =>
    -- A directive is a row of its own.
    rw [List.forall_mem_cons] at plain
    have later := ih plain.2
      (fun k line found => by
        rw [Nat.add_assoc, Nat.add_comm 1]
        exact marks (k + 1) line found)
      (fun k line found isMarked' => by
        have := closed (k + 1) line found isMarked'
        simpa [blankedLine, isMarked, Token.openBehind, SourceLine.tokens] using this)
    -- The empty line in its place has nothing but its newline.
    have here : marked row = true := (marks 0 line rfl).trans isMarked
    simp [Input.tokens, later, blankedLine, isMarked, Token.ofLines, SourceLine.tokens,
      SourceLine.token, here]
  | @code row lines others rest some unmarked longest behind ih =>
    -- A chunk is all lines up to the next directive.
    rw [List.forall_mem_append] at plain
    rw [List.map_append, map_blankedLine unmarked] at closed ⊢
    -- The comments of a chunk are closed where another line follows, for that is a directive.
    have shut : others ≠ [] → Token.openBehind file row false lines = false := by
      intro more
      obtain ⟨line, _, rfl⟩ := List.exists_cons_of_ne_nil more
      simpa using closed lines.length line (by simp) (longest line rfl)
    -- Rows behind the chunk are rows of the other lines.
    have beyond : ∀ k, (lines ++ others)[lines.length + k]? = others[k]? := by
      intro k
      rw [List.getElem?_append_right (Nat.le_add_right _ _), Nat.add_sub_cancel_left]
    have later := ih plain.2
      (fun k line found => by
        rw [Nat.add_assoc]
        exact marks (lines.length + k) line ((beyond k).trans found))
      (fun k line found isMarked => by
        have := closed (lines.length + k) line ((beyond k).trans found) isMarked
        rw [List.take_length_add_append, Token.openBehind_append,
          shut (List.ne_nil_of_mem (List.mem_of_getElem? found))] at this
        exact this)
    have same : Token.ofLines file (row + lines.length) (Token.openBehind file row false lines)
        (others.map blankedLine) =
        Token.ofLines file (row + lines.length) false (others.map blankedLine) := by
      by_cases none : others = []
      · simp [none, Token.ofLines]
      · rw [shut none]
    -- No newline of the chunk is one of a directive.
    have kept : (Token.ofLines file row false lines).filter
        (fun token => !(token.lexeme = .newline && marked token.pos.row)) =
        Token.ofLines file row false lines := by
      refine List.filter_eq_self.2 fun token inside => ?_
      obtain ⟨k, line, found, stands⟩ := Token.row_of_mem_ofLines inside
      have inChunk : k < lines.length := (List.getElem?_eq_some_iff.1 found).1
      have isMarked := marks k line ((List.getElem?_append_left inChunk).trans found)
      rw [unmarked line (List.mem_of_getElem? found)] at isMarked
      simp [stands, isMarked]
    -- The tokens are those of the chunk and those of the other lines.
    rw [List.flatMap_cons, later, Token.ofLines_append, List.filter_append, same, kept]
    simp [Input.tokens, Token.ofText, Text.lines_joined plain.1]

/-- Blanked lines have no ends of line in them either. -/
theorem plain_blanked {text : String} (unix : '\r' ∉ text.toList) :
    ∀ line ∈ (Text.lines text.toList).map blankedLine, '\n' ∉ line ∧ '\r' ∉ line := by
  -- A blanked line is empty, and any other one is a line of the text.
  intro line inside
  obtain ⟨old, there, rfl⟩ := List.mem_map.1 inside
  unfold blankedLine
  split
  · simp
  · exact Text.plain_of_mem_lines unix old there

/-- Whether a block comment is open where a row starts, if the directives are blanked. -/
def isOpenAt (file text : String) (row : Nat) : Bool :=
  Token.openBehind file 0 false ((Text.lines (blanked text).toList).take row)

/-- Splitting a text without carriage returns loses no line and keeps positions. The marks of the
file stand around chunks and directives, of which no two chunks are neighbours. Row by row and in
order, the pieces stand for the lines of the text: a directive, at its `#`, where that comes first in
the line, and else the line as it is in a chunk. And unless a block comment is open where a directive
starts, the tokens of the chunks are those of the text with its directives blanked, without the
newlines of these. -/
theorem split_keeps_rows {load : Loader} {file text : String} {inputs : List Input}
    (unix : '\r' ∉ text.toList) (ran : split load file text = .ok inputs) :
    (∃ middle, inputs = .fileBegin file :: middle ++ [.fileEnd file] ∧
      ∀ input ∈ middle, input.isCode = true ∨ ∃ d pos, input = .directive d pos) ∧
    inputs.IsChain (fun a b => ¬ (a.isCode = true ∧ b.isCode = true)) ∧
    inputs.flatMap Input.rows = rowsOf file text ∧
    ((∀ row, isDirectiveRow text row = true → isOpenAt file text row = false) →
      inputs.flatMap Input.tokens = (Token.ofText file 0 (blanked text)).filter fun token =>
        !(token.lexeme = .newline && isDirectiveRow text token.pos.row)) := by
  -- The pieces are split off as the lines go, and each part is about such a splitting.
  simp only [split, except_bind_eq_ok, except_pure_eq_ok] at ran
  obtain ⟨rest, ran, rfl⟩ := ran
  have plain := Text.plain_of_mem_lines unix
  have read : Text.lines (blanked text).toList = (Text.lines text.toList).map blankedLine := by
    rw [blanked, String.toList_ofList, Text.lines_joined (plain_blanked unix)]
  have splits : Splits file 0 ([] ++ Text.lines text.toList) rest :=
    splits_of_splitLines (List.forall_mem_nil _) ran
  refine ⟨?_, ?_, ?_, fun closed => ?_⟩
  · obtain ⟨middle, rfl, each⟩ := splits.shape
    exact ⟨middle, rfl, each⟩
  · exact List.isChain_cons.2 ⟨fun _ _ both => Bool.false_ne_true both.1, splits.apart⟩
  · exact splits.rows plain
  · rw [Token.ofText, read]
    refine splits.tokens plain (isDirectiveRow text) (fun k line found => ?_)
      (fun k line found isMarked => ?_)
    · simp only [List.nil_append] at found
      simp [isDirectiveRow, found]
    · simp only [List.nil_append] at found
      have shut := closed k (by simpa [isDirectiveRow, found] using isMarked)
      rwa [isOpenAt, read] at shut

/-- Code around three directives, with a block comment over two rows and one that is never
closed. -/
def interleaved : String :=
  "inx\n/* a\nb */ dex\n #rom.end\n\n#ram.end\n#rom.end\niny /* c"

/-- The comment that is open behind the last row runs into no directive, so that the pieces have the
rows and the tokens of the text. -/
theorem interleaved_keeps_rows :
    ∃ inputs, split (fun _ => .error .popGlobal) "a" interleaved = .ok inputs ∧
      inputs.length = 8 ∧ inputs.flatMap Input.rows = rowsOf "a" interleaved ∧
      inputs.flatMap Input.tokens = (Token.ofText "a" 0 (blanked interleaved)).filter fun token =>
        !(token.lexeme = .newline && isDirectiveRow interleaved token.pos.row) := by
  -- The text has eight rows, which are looked at one by one.
  have unix : '\r' ∉ interleaved.toList := by decide
  have evaluated : (match split (fun _ => .error .popGlobal) "a" interleaved with
      | .ok inputs => inputs.length == 8
      | .error _ => false) = true := by
    decide +kernel
  -- Only the directives among the eight rows are looked at.
  have closed : ∀ row, isDirectiveRow interleaved row = true →
      isOpenAt "a" interleaved row = false := by
    intro row marked
    have few : row < 8 := by
      by_contra many
      have none : (Text.lines interleaved.toList)[row]? = none :=
        List.getElem?_eq_none (Nat.le_trans (by decide) (Nat.le_of_not_lt many))
      simp [isDirectiveRow, none] at marked
    have each : ∀ row < 8, isDirectiveRow interleaved row = true →
        isOpenAt "a" interleaved row = false := by
      decide +kernel
    exact each row few marked
  -- The pieces are those that splitting gives.
  split at evaluated
  · rename_i inputs ran
    obtain ⟨-, -, rows, tokens⟩ := split_keeps_rows unix ran
    exact ⟨inputs, ran, by simpa using evaluated, rows, tokens closed⟩
  · cases evaluated

end Source

end CrossAsm

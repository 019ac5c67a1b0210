import CrossAsm.Proofs.Lexeme.Positions
import CrossAsm.Proofs.Source.Arguments

/-! Where the errors of directives point. The arguments of a directive are read as a text of their
own in its row, so an error points at the right token in the right row, but at its column among the
arguments; and without arguments there is no token to point at. -/

namespace CrossAsm

namespace Source

variable {load : Loader} {file : String} {row : Nat} {line : List Char} {e : Error}

/-- What follows the `#` of a directive line. -/
def bodyOf (line : List Char) : List Char :=
  (Text.trimStart line).drop 1

/-- The arguments of a directive line: what follows the white space behind the first word. -/
def argsOf (line : List Char) : List Char :=
  ((bodyOf line).dropWhile (!Text.isBlank ·)).drop 1

/-- The column at which the arguments of a directive line start. -/
def argsColumn (line : List Char) : Nat :=
  Text.byteLength line - Text.byteLength (argsOf line)

/-- What a directive line is read as. -/
def readDirective (load : Loader) (file : String) (row : Nat) (line : List Char) :
    Except Error Directive :=
  directive load ⟨file, row, firstColumn line⟩ (bodyOf line)

/-- A directive line is read before the lines that follow. -/
theorem splitLines_marked (marked : isDirective line = true) (chunk : Option Chunk)
    (others : List (List Char)) :
    splitLines load file row chunk (line :: others) =
      (do
        let d ← readDirective load file row line
        let rest ← splitLines load file (row + 1) none others
        return flush chunk ++ .directive d ⟨file, row, firstColumn line⟩ :: rest) := by
  -- The line is read as a directive if it starts with the mark.
  rw [splitLines]
  split
  · rename_i body trimmed
    simp [readDirective, bodyOf, firstColumn, trimmed]
  · rename_i unmarked
    obtain ⟨body, trimmed⟩ := List.head?_eq_some_iff.1 (beq_iff_eq.1 marked)
    exact absurd trimmed (unmarked body)

/-- The first of lines that is a directive that cannot be read, the lines starting at a row. -/
structure FirstFailure (load : Loader) (file : String) (row : Nat) (lines : List (List Char))
    (e : Error) (i : Nat) (line : List Char) : Prop where
  /-- It is one of the lines. -/
  found : lines[i]? = some line
  /-- It is a directive. -/
  marked : isDirective line = true
  /-- It cannot be read. -/
  reading : readDirective load file (row + i) line = .error e
  /-- The directives before it can be read. -/
  before : ∀ j < i, ∀ other, lines[j]? = some other → isDirective other = true →
    ∃ d, readDirective load file (row + j) other = .ok d

/-- A line that is no directive, or one that can be read, comes before the failure. -/
theorem FirstFailure.cons {others : List (List Char)} {i : Nat} {failing : List Char}
    (failure : FirstFailure load file (row + 1) others e i failing)
    (read : isDirective line = true → ∃ d, readDirective load file row line = .ok d) :
    FirstFailure load file row (line :: others) e (i + 1) failing := by
  -- The rows of the other lines are one further on.
  have shift : ∀ k, row + 1 + k = row + (k + 1) := fun k => by omega
  refine ⟨failure.found, failure.marked, shift i ▸ failure.reading, ?_⟩
  rintro (_ | j) early other there marked
  · obtain rfl := Option.some.inj there
    exact read marked
  · rw [← shift]
    exact failure.before j (Nat.lt_of_succ_lt_succ early) other there marked

/-- Lines that cannot be split have a first directive that cannot be read. -/
theorem exists_firstFailure {lines : List (List Char)} {chunk : Option Chunk}
    (failed : splitLines load file row chunk lines = .error e) :
    ∃ i line, FirstFailure load file row lines e i line := by
  -- By induction on the lines. Those behind a directive are split once it is read.
  induction lines generalizing row chunk with
  | nil => cases failed
  | cons line others ih =>
    cases marked : isDirective line with
    | false =>
      -- A line of code is put into the chunk.
      rw [splitLines_code marked] at failed
      obtain ⟨i, failing, failure⟩ := ih failed
      exact ⟨i + 1, failing, failure.cons (by simp [marked])⟩
    | true =>
      -- A directive is read, and then the lines behind it are split.
      rw [splitLines_marked marked] at failed
      cases reading : readDirective load file row line with
      | error e' =>
        rw [reading] at failed
        cases failed
        exact ⟨0, line, rfl, marked, reading, nofun⟩
      | ok d =>
        rw [reading] at failed
        cases behind : splitLines load file (row + 1) none others with
        | error e' =>
          simp only [behind] at failed
          cases failed
          obtain ⟨i, failing, failure⟩ := ih behind
          exact ⟨i + 1, failing, failure.cons fun _ => ⟨d, reading⟩⟩
        | ok rest =>
          simp only [behind] at failed
          cases failed

/-- Arguments are a part of their line. -/
theorem mem_of_mem_argsOf {c : Char} (inside : c ∈ argsOf line) : c ∈ line :=
  (List.dropWhile_suffix _).subset <| List.mem_of_mem_drop <|
    (List.dropWhile_suffix _).subset <| List.mem_of_mem_drop inside

/-- Arguments stand behind the `#` and the white space that ends the first word. -/
theorem args_behind (marked : isDirective line = true) (some : argsOf line ≠ []) :
    ∃ front, line = front ++ argsOf line ∧ Text.byteLength front = argsColumn line ∧
      2 ≤ argsColumn line := by
  -- The line is taken apart: blanks, the mark, a word, a blank, and the arguments.
  have lead : line.takeWhile Text.isBlank ++ Text.trimStart line = line :=
    List.takeWhile_append_dropWhile
  obtain ⟨body, trimmed⟩ := List.head?_eq_some_iff.1 (beq_iff_eq.1 marked)
  have word : body.takeWhile (!Text.isBlank ·) ++ body.dropWhile (!Text.isBlank ·) = body :=
    List.takeWhile_append_dropWhile
  have args : argsOf line = (body.dropWhile (!Text.isBlank ·)).drop 1 := by
    rw [argsOf, bodyOf, trimmed]
    rfl
  -- Without a blank behind the word there are no arguments.
  cases behind : body.dropWhile (!Text.isBlank ·) with
  | nil =>
    rw [args, behind] at some
    exact absurd rfl some
  | cons blank rest =>
    obtain rfl : argsOf line = rest := by rw [args, behind]; rfl
    -- White space, the mark, a word and the blank that ends it are in front of the arguments.
    have whole : line = line.takeWhile Text.isBlank ++
        '#' :: (body.takeWhile (!Text.isBlank ·) ++ [blank]) ++ argsOf line := by
      conv => lhs; rw [← lead, trimmed, ← word, behind]
      simp
    have length := congrArg Text.byteLength whole
    rw [Text.byteLength_append] at length
    refine ⟨_, whole, ?_, ?_⟩
    · rw [argsColumn]
      omega
    · -- The mark and the blank take a byte each.
      have marks : 2 ≤ Text.byteLength (line.takeWhile Text.isBlank ++
          '#' :: (body.takeWhile (!Text.isBlank ·) ++ [blank])) := by
        have mark := Text.byteLength_lt_cons '#' (body.takeWhile (!Text.isBlank ·) ++ [blank])
        have separator := Text.byteLength_lt_cons blank []
        rw [Text.byteLength_append] at mark ⊢
        omega
      rw [argsColumn]
      omega

/-- The tokens of arguments are those of their line. -/
theorem ofText_args {args : List Char} (oneLine : '\n' ∉ args) (some : args ≠ []) :
    Token.ofText file row (String.ofList args) =
      (SourceLine.tokens ⟨file, row, Text.byteLength args⟩ false 0 args).1 := by
  -- The text of the arguments is a single line.
  rw [Token.ofText, String.toList_ofList, Text.lines_eq_singleton oneLine some]
  simp only [Token.ofLines, List.append_nil]

/-- The tokens of arguments end with a newline, if there are any. -/
theorem args_ended {args : List Char} (oneLine : '\n' ∉ args) :
    ∀ eol ∈ (Token.ofText file row (String.ofList args)).getLast?, eol.lexeme = .newline := by
  -- Without arguments there are no tokens, and else they are those of one line.
  by_cases none : args = []
  · subst none
    exact nofun
  · intro eol last
    obtain ⟨body, newline, same, ends, -⟩ :=
      SourceLine.tokens_newline ⟨file, row, Text.byteLength args⟩ false 0 args
    rw [ofText_args oneLine none, same] at last
    obtain rfl : newline = eol := by simpa using last
    exact ends

/-- Where the error of a directive line points. An error of its arguments is in its file and row,
but has the column of the token among the arguments, which is less than the one in the line by the
column where these start; and the end of arguments that are missing is nowhere. -/
inductive Located (load : Loader) (file : String) (row : Nat) (line : List Char) : Error → Prop
  | load {name : String} {e : Error} (failed : load name = .error e) : Located load file row line e
  | name : Located load file row line (.unknownDirective ⟨file, row, firstColumn line⟩
      ("#" ++ String.ofList ((bodyOf line).takeWhile (!Text.isBlank ·))))
  | argless (none : argsOf line = []) : Located load file row line (.unexpectedEnd {})
  | token {token : Token} {e : Error}
    (blames : Blames (Token.ofText file row (String.ofList (argsOf line))) token e)
    (inFile : token.pos.file = file) (inRow : token.pos.row = row) (behind : 2 ≤ argsColumn line)
    (inLine : argsColumn line + token.pos.col ≤ Text.byteLength line)
    (stands : token.lexeme ≠ .newline → ∃ front spelled after, line = front ++ (spelled ++ after) ∧
      Text.byteLength front = argsColumn line + token.pos.col ∧
      token.lexeme.Written spelled after) : Located load file row line e

/-- A token of the arguments is in the file and the row of the directive, and stands behind the
start of the arguments. -/
theorem located_of_blames (marked : isDirective line = true) (oneLine : '\n' ∉ line) {token : Token}
    (blames : Blames (Token.ofText file row (String.ofList (argsOf line))) token e) :
    Located load file row line e := by
  -- The token stands in the arguments, and they stand at the end of the line.
  have inside := blames.mem
  have some : argsOf line ≠ [] := by
    intro none
    rw [none] at inside
    cases inside
  -- The arguments end the line, so that what stands in them stands in it, further on by what is in
  -- front of them.
  obtain ⟨front, whole, start, behind⟩ := args_behind marked some
  have argsLine : '\n' ∉ argsOf line := fun newline => oneLine (mem_of_mem_argsOf newline)
  rw [ofText_args argsLine some] at inside
  have within : token.pos.col ≤ Text.byteLength (argsOf line) := by
    have ordered := SourceLine.tokens_ordered ⟨file, row, Text.byteLength (argsOf line)⟩ false 0
      (argsOf line) (Nat.le_refl _) (Nat.zero_le _)
    exact (ordered.within token inside).2
  have inLine : argsColumn line + token.pos.col ≤ Text.byteLength line := by
    have length := congrArg Text.byteLength whole
    rw [Text.byteLength_append] at length
    omega
  refine .token blames (SourceLine.file_of_mem_tokens _ _ _ _ token inside)
    (SourceLine.row_of_mem_tokens _ _ _ _ token inside) behind inLine fun spoken => ?_
  obtain ⟨before, spelled, after, same, col, stands⟩ :=
    SourceLine.shows_of_mem_tokens _ _ _ _ token inside spoken
  refine ⟨front ++ before, spelled, after, ?_, ?_, stands.written⟩
  · rw [List.append_assoc, ← same, ← whole]
  · have offset : token.pos.col = Text.byteLength before := by
      rw [col]
      show Text.byteLength (argsOf line) - Text.byteLength (spelled ++ after) = _
      rw [same, Text.byteLength_append, Nat.add_sub_cancel_right]
    rw [Text.byteLength_append, start, offset]

/-- The error of a directive line is located. -/
theorem located_of_readDirective (marked : isDirective line = true) (oneLine : '\n' ∉ line)
    (failed : readDirective load file row line = .error e) : Located load file row line e := by
  -- By what is blamed: the arguments, their end, or one of their tokens.
  have argsLine : '\n' ∉ argsOf line := fun newline => oneLine (mem_of_mem_argsOf newline)
  unfold readDirective directive at failed
  dsimp only at failed
  split at failed
  · cases failed
  · rename_i e' after ran
    obtain rfl := Except.error.inj failed
    -- The arguments are read from their first token on, with nothing read before.
    have start : Parse.InLine (Token.ofText file row (String.ofList (argsOf line))) _
        ⟨Token.ofText file row (String.ofList (argsOf line)), {}⟩ :=
      ⟨List.suffix_refl _, rfl, fun none => ⟨none, rfl⟩⟩
    rcases Parse.blamed_of_directive (args_ended argsLine) start ran with
      (⟨name, failed⟩ | rfl) | ⟨none, rfl⟩ | ⟨token, blames⟩
    · exact .load failed
    · exact .name
    · refine .argless ?_
      -- Even white space has a token, the newline of its line.
      by_contra some
      obtain ⟨body, newline, same, -⟩ :=
        SourceLine.tokens_newline ⟨file, row, Text.byteLength (argsOf line)⟩ false 0 (argsOf line)
      rw [ofText_args argsLine some, same] at none
      simp at none
    · exact located_of_blames marked oneLine blames

/-- Errors of directives have the right file and row and a column that counts from the arguments. A
file that cannot be split has a first directive that cannot be read, and the error points there. -/
theorem directive_errors_located {load : Loader} {file text : String} {e : Error}
    (failed : split load file text = .error e) :
    ∃ i line, FirstFailure load file 0 (Text.lines text.toList) e i line ∧
      Located load file i line e := by
  -- The first line that fails is found, and its error is located.
  unfold split at failed
  cases splitting : splitLines load file 0 none (Text.lines text.toList) with
  | ok inputs =>
    rw [splitting] at failed
    cases failed
  | error e' =>
    rw [splitting] at failed
    cases failed
    obtain ⟨i, line, failure⟩ := exists_firstFailure splitting
    have oneLine :=
      Text.newline_not_mem_lines text.toList line (List.mem_of_getElem? failure.found)
    have reading := failure.reading
    rw [Nat.zero_add] at reading
    exact ⟨i, line, failure, located_of_readDirective failure.marked oneLine reading⟩

/-- A directive of the second line with a size that is negative. -/
def negativeSize : String :=
  "inx\n #rom.org $8000, -1\n"

/-- The sign stands at byte 17 of its line, and at byte 7 of the arguments. -/
theorem negativeSize_located :
    ∃ i line,
      FirstFailure (fun _ => .error .popGlobal) "a" 0 (Text.lines negativeSize.toList)
        (.outOfRange ⟨"a", 1, 7⟩ (-1)) i line ∧
      Located (fun _ => .error .popGlobal) "a" i line (.outOfRange ⟨"a", 1, 7⟩ (-1)) :=
  directive_errors_located (by decide +kernel)

/-- A name in place of a number is blamed at byte 0 of its line and stands at byte 9; and a number
that is missing is blamed on no file and the first row. -/
theorem directive_errors_misplaced :
    (∃ pos, split (fun _ => .error .popGlobal) "a" "#rom.org zz" = .error (.notAConstant pos "zz") ∧
      pos.col ≠ Text.byteLength "#rom.org ".toList) ∧
    ∃ pos, split (fun _ => .error .popGlobal) "a" "inx\n#rom.org" = .error (.unexpectedEnd pos) ∧
      pos.file ≠ "a" ∧ pos.row ≠ 1 :=
  ⟨⟨⟨"a", 0, 0⟩, by decide +kernel, by decide⟩, {}, by decide +kernel, by decide, by decide⟩

end Source

end CrossAsm

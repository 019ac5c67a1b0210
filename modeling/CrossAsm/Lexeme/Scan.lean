import CrossAsm.Lexeme
import CrossAsm.Text.Blank
import CrossAsm.Text.Lines

/-! Splitting source text into tokens, with one newline token at the end of every line. -/

namespace CrossAsm.Lexeme

/-- The value of a digit below the radix. -/
def digit? (radix : Nat) (c : Char) : Option Nat :=
  let value :=
    if '0' ≤ c ∧ c ≤ '9' then c.toNat - 48
    else if 'a' ≤ c ∧ c ≤ 'z' then c.toNat - 87
    else if 'A' ≤ c ∧ c ≤ 'Z' then c.toNat - 55
    else radix
  if value < radix then some value else none

/-- Whether a character may stand among the digits of a number. -/
def isDigitOrBreak (radix : Nat) (c : Char) : Bool :=
  c == '_' || (digit? radix c).isSome

/-- The number that digits spell, the underscores among them skipped. -/
def digitsValue (radix : Nat) (digits : List Char) : Nat :=
  (digits.filterMap (digit? radix)).foldl (fun value digit => value * radix + digit) 0

/-- A number whose digits start the text; a `K` after them counts kilobytes. -/
def scanDigits (lead : String) (radix : Nat) (source : List Char) : Lexeme × List Char :=
  let digits := source.takeWhile (isDigitOrBreak radix)
  let (scale, mark, rest) : Int64 × String × List Char :=
    match source.dropWhile (isDigitOrBreak radix) with
    | 'K' :: rest => (1024, "K", rest)
    | rest => (1, "", rest)
  let spelling := lead ++ String.ofList digits ++ mark
  let value := digitsValue radix digits
  if digits.all (· == '_') || 0x8000000000000000 ≤ value then (.invalid spelling, rest)
  else (.number spelling (Int64.ofNat value * scale), rest)

/-- A number that starts with a decimal digit, with the radix its first two characters tell. -/
def scanNumber (source : List Char) : Lexeme × List Char :=
  match source with
  | '0' :: 'x' :: rest | '0' :: 'X' :: rest => scanDigits "0x" 16 rest
  | '0' :: 'b' :: rest | '0' :: 'B' :: rest => scanDigits "0b" 2 rest
  | source => scanDigits "" 10 source

/-- The character an escape stands for. -/
def unescape : Char → Option Char
  | 'n' => some '\n'
  | 't' => some '\t'
  | 'r' => some '\r'
  | '0' => some '\x00'
  | '\\' => some '\\'
  | '\'' => some '\''
  | '"' => some '"'
  | _ => none

/-- The one character of a character literal, if it has one, and what follows it. -/
def scanCharBody : List Char → Option Char × List Char
  | [] => (none, [])
  | '\\' :: [] => (none, [])
  | '\\' :: c :: rest => (unescape c, rest)
  | c :: rest => (some c, rest)

/-- A character literal, after its opening quote. -/
def scanChar (source : List Char) : Lexeme × List Char :=
  match scanCharBody source with
  | (some c, '\'' :: rest) => (.char c, rest)
  | (_, rest) => (.invalid "'", rest.drop 1)

/-- A text literal after its opening quote and the characters already read. -/
def scanText (read : List Char) : List Char → Lexeme × List Char
  | [] => (.invalid (String.ofList ('"' :: read)), [])
  | '"' :: rest => (.text (String.ofList read), rest)
  | '\\' :: [] => (.invalid (String.ofList ('"' :: read ++ ['\\'])), [])
  | '\\' :: c :: rest =>
    match unescape c with
    | some c => scanText (read ++ [c]) rest
    | none => (.invalid (String.ofList ('"' :: read ++ ['\\'])), rest)
  | c :: rest => scanText (read ++ [c]) rest

/-- Whether a character may start a word. -/
def isWordStart (c : Char) : Bool :=
  c.isAlpha || c == '_'

/-- Whether a character may continue a word. -/
def isWordPart (c : Char) : Bool :=
  c.isAlphanum || c == '_'

/-- A keyword or an identifier. -/
def ofWord (word : String) : Lexeme :=
  match Keyword.ofSpelling? word with
  | some k => .keyword k
  | none => .ident word

/-- A keyword or an identifier at the head of the text. -/
def scanWord (source : List Char) : Lexeme × List Char :=
  (ofWord (String.ofList (source.takeWhile isWordPart)), source.dropWhile isWordPart)

/-- The glyph of one character. -/
def glyph? : Char → Option Glyph
  | '<' => some .less
  | '>' => some .greater
  | '=' => some .equal
  | '+' => some .plus
  | '-' => some .minus
  | '*' => some .star
  | '/' => some .slash
  | '%' => some .percent
  | '&' => some .ampersand
  | '|' => some .pipe
  | '^' => some .caret
  | '~' => some .tilde
  | '#' => some .hash
  | ':' => some .colon
  | ';' => some .semicolon
  | ',' => some .comma
  | '.' => some .period
  | '(' => some .leftParen
  | ')' => some .rightParen
  | '[' => some .leftBracket
  | ']' => some .rightBracket
  | '{' => some .leftCurly
  | '}' => some .rightCurly
  | _ => none

/-- Punctuation, or a single character of no class. -/
def scanGlyph (c : Char) (rest : List Char) : Lexeme × List Char :=
  match c, rest with
  | '<', '<' :: rest => (.glyph .doubleLess, rest)
  | '>', '>' :: rest => (.glyph .doubleGreater, rest)
  | c, rest =>
    match glyph? c with
    | some g => (.glyph g, rest)
    | none => (.invalid (String.singleton c), rest)

/-- The lexeme that starts with `c`, neither white space nor the start of a comment, and the text
after it. -/
def scan (c : Char) (rest : List Char) : Lexeme × List Char :=
  if c = '$' then scanDigits "$" 16 rest
  else if c.isDigit then scanNumber (c :: rest)
  else if c = '\'' then scanChar rest
  else if c = '"' then scanText [] rest
  else if isWordStart c then scanWord (c :: rest)
  else scanGlyph c rest

/-- A number takes its digits and perhaps a scale mark, and adds nothing. -/
theorem scanDigits_length (lead : String) (radix : Nat) (source : List Char) :
    (scanDigits lead radix source).2.length ≤ (source.dropWhile (isDigitOrBreak radix)).length := by
  -- Only the scale mark is taken from what follows the digits.
  unfold scanDigits
  generalize source.dropWhile (isDigitOrBreak radix) = after
  rcases after with _ | ⟨c, rest⟩
  · simp only []
    split <;> simp
  · by_cases mark : c = 'K'
    · subst mark
      simp only []
      split <;> simp
    · simp only []
      split <;> simp [mark]

/-- Dropping characters from the front leaves no more than there were. -/
theorem dropWhile_length_le (p : Char → Bool) (source : List Char) :
    (source.dropWhile p).length ≤ source.length :=
  (List.dropWhile_suffix p).length_le

/-- A decimal digit may stand among the digits of a decimal number. -/
theorem isDigitOrBreak_of_isDigit {c : Char} (digit : c.isDigit = true) :
    isDigitOrBreak 10 c = true := by
  -- Its code point lies between those of zero and nine, so its value is below ten.
  have bounds : 48 ≤ c.toNat ∧ c.toNat ≤ 57 := by
    simpa [Char.isDigit, UInt32.le_iff_toNat_le] using digit
  have low : '0' ≤ c := by simpa [Char.le_def, UInt32.le_iff_toNat_le] using bounds.1
  have high : c ≤ '9' := by simpa [Char.le_def, UInt32.le_iff_toNat_le] using bounds.2
  have small : c.toNat - 48 < 10 := by omega
  simp [isDigitOrBreak, digit?, low, high, small]

/-- A number takes at least its first digit. -/
theorem scanNumber_length (c : Char) (rest : List Char) (digit : c.isDigit = true) :
    (scanNumber (c :: rest)).2.length ≤ rest.length := by
  -- Either the two characters of a radix mark are gone, or the first digit is.
  have first := isDigitOrBreak_of_isDigit digit
  have taken := fun (lead : String) (radix : Nat) (source : List Char) =>
    Nat.le_trans (scanDigits_length lead radix source)
      (dropWhile_length_le (isDigitOrBreak radix) source)
  unfold scanNumber
  split
  case h_5 _ _ _ _ _ =>
    have drops := scanDigits_length "" 10 (c :: rest)
    rw [List.dropWhile_cons_of_pos first] at drops
    exact Nat.le_trans drops (dropWhile_length_le _ _)
  all_goals
    rename_i marked
    obtain ⟨-, rfl⟩ := List.cons.inj marked
    exact Nat.le_trans (taken _ _ _) (Nat.le_succ _)

/-- The body of a character literal is a prefix of the text. -/
theorem scanCharBody_length (source : List Char) :
    (scanCharBody source).2.length ≤ source.length := by
  -- Each form takes its characters from the front.
  unfold scanCharBody
  split <;> simp
  omega

/-- A character literal takes characters from the front only. -/
theorem scanChar_length (source : List Char) : (scanChar source).2.length ≤ source.length := by
  -- After the body at most one more character is taken.
  have body := scanCharBody_length source
  unfold scanChar
  split
  · rename_i matched
    rw [matched] at body
    exact Nat.le_trans (Nat.le_succ _) body
  · rename_i matched
    rw [matched] at body
    simp only [List.length_drop]
    exact Nat.le_trans (Nat.sub_le _ _) body

/-- A text literal takes characters from the front only. -/
theorem scanText_length (read source : List Char) :
    (scanText read source).2.length ≤ source.length := by
  -- Each step takes one character, or two for an escape.
  fun_induction scanText read source <;> simp_all <;> omega

/-- A lexeme takes at least its first character. -/
theorem scan_length (c : Char) (rest : List Char) : (scan c rest).2.length ≤ rest.length := by
  -- Each class reads from the front, and a class tested by its first character takes that one.
  unfold scan
  split
  · exact Nat.le_trans (scanDigits_length _ _ _) (dropWhile_length_le _ _)
  split
  · rename_i digit
    exact scanNumber_length c rest digit
  split
  · exact scanChar_length rest
  split
  · exact scanText_length [] rest
  split
  · rename_i start
    have first : isWordPart c = true := by
      simp only [isWordStart, isWordPart, Char.isAlphanum, Bool.or_eq_true] at start ⊢
      exact start.imp_left Or.inl
    simp only [scanWord, List.dropWhile_cons_of_pos first]
    exact dropWhile_length_le _ _
  · unfold scanGlyph
    split
    · exact Nat.le_succ _
    · exact Nat.le_succ _
    · split <;> exact Nat.le_refl _

end CrossAsm.Lexeme

import CrossAsm.Lexeme.Tokens
import CrossAsm.Proofs.Parser.Reading

/-! How written lexemes are scanned: words, numbers and glyphs, each with what text may follow. -/

namespace CrossAsm

open Token (lexemes)

/-- Text that continues neither a word nor a number. -/
def Text.Apart (rest : List Char) : Prop :=
  ∀ c ∈ rest.head?, Lexeme.isWordPart c = false

/-- Text that makes no comment of a slash before it. -/
def Text.Uncommenting (rest : List Char) : Prop :=
  ∀ c ∈ rest.head?, c ≠ '/' ∧ c ≠ '*'

open Text (Apart Uncommenting)

namespace Lexeme

/-! ### Characters by their code points -/

/-- A word starts with a letter or an underscore. -/
theorem isWordStart_iff {c : Char} : isWordStart c = true ↔
    (65 ≤ c.toNat ∧ c.toNat ≤ 90) ∨ (97 ≤ c.toNat ∧ c.toNat ≤ 122) ∨ c.toNat = 95 := by
  -- The letters are the ranges of their codes.
  have underscore : c = '_' ↔ c.toNat = 95 := Char.toNat_inj.symm
  unfold isWordStart
  delta Char.isAlpha Char.isUpper Char.isLower
  simp only [Bool.or_eq_true, beq_iff_eq, underscore]
  simp [UInt32.le_iff_toNat_le, or_assoc]

/-- A digit lies between zero and nine. -/
theorem isDigit_iff {c : Char} : c.isDigit = true ↔ 48 ≤ c.toNat ∧ c.toNat ≤ 57 :=
  Char.isDigit_iff_toNat

/-- A word goes on with what may start it and with digits. -/
theorem isWordPart_iff {c : Char} :
    isWordPart c = true ↔ isWordStart c = true ∨ c.isDigit = true := by
  -- Letters and the underscore may start it, and digits are all that is left.
  simp only [isWordPart, isWordStart, Char.isAlphanum, Bool.or_eq_true]
  grind

/-- Marks, letters and digits are no white space. -/
theorem isBlank_eq_false {c : Char} (low : 33 ≤ c.toNat) (high : c.toNat ≤ 126) :
    Text.isBlank c = false := by
  -- A blank is a space or has its code in front of these or behind them.
  have space : c ≠ ' ' := by
    rintro rfl
    exact absurd low (by decide)
  simp only [Text.isBlank, Text.wideBlanks, Bool.or_eq_false_iff, Bool.and_eq_false_iff,
    decide_eq_false_iff_not, beq_eq_false_iff_ne, List.contains_eq_mem, List.mem_cons,
    List.not_mem_nil, or_false]
  exact ⟨⟨space, by omega⟩, by omega⟩

/-- What may stand among digits may stand in a word. -/
theorem isWordPart_of_isDigitOrBreak {radix : Nat} {c : Char}
    (part : isDigitOrBreak radix c = true) : isWordPart c = true := by
  -- An underscore may stand in a word, and a digit is in one of three ranges.
  rw [isWordPart_iff, isWordStart_iff, isDigit_iff]
  simp only [isDigitOrBreak, Bool.or_eq_true, beq_iff_eq] at part
  rcases part with rfl | digit
  · exact .inl (.inr (.inr rfl))
  · simp only [digit?, Char.le_def, UInt32.le_iff_toNat_le] at digit
    -- Each of the three ranges is one of a word part, and outside them the value is too large.
    split at digit
    · rename_i range
      exact .inr range
    split at digit
    · rename_i range
      exact .inl (.inr (.inl range))
    split at digit
    · rename_i range
      exact .inl (.inl range)
    · simp at digit

/-! ### Where a word or a number ends -/

variable {p : Char → Bool} {text rest : List Char}

/-- A class of word parts takes nothing from text that is apart. -/
theorem takeWhile_of_apart (apart : Apart rest) (parts : ∀ c, p c = true → isWordPart c = true) :
    rest.takeWhile p = [] := by
  -- The first character is in no word, if there is one.
  cases rest with
  | nil => rfl
  | cons c rest =>
    refine List.takeWhile_cons_of_neg fun holds => ?_
    have other := apart c rfl
    rw [parts c holds] at other
    cases other

/-- Text of a class of word parts is taken whole, up to text that is apart. -/
theorem takeWhile_append_apart (all : ∀ c ∈ text, p c = true) (apart : Apart rest)
    (parts : ∀ c, p c = true → isWordPart c = true) : (text ++ rest).takeWhile p = text := by
  -- Taking does not end inside the text, and ends where it does.
  rw [List.takeWhile_append_of_pos all, takeWhile_of_apart apart parts, List.append_nil]

/-- Behind text of a class of word parts stands the text that is apart. -/
theorem dropWhile_append_apart (all : ∀ c ∈ text, p c = true) (apart : Apart rest)
    (parts : ∀ c, p c = true → isWordPart c = true) : (text ++ rest).dropWhile p = rest := by
  -- What is taken and what is left are the whole text.
  have whole : (text ++ rest).takeWhile p ++ (text ++ rest).dropWhile p = text ++ rest :=
    List.takeWhile_append_dropWhile
  rw [takeWhile_append_apart all apart parts] at whole
  exact List.append_cancel_left whole

/-! ### Words -/

/-- A word is scanned whole. -/
theorem scan_word {c : Char} {more : List Char} (start : isWordStart c = true)
    (parts : ∀ d ∈ more, isWordPart d = true) (apart : Apart rest) :
    scan c (more ++ rest) = (ofWord (String.ofList (c :: more)), rest) := by
  have all : ∀ d ∈ c :: more, isWordPart d = true := by
    rintro d (_ | ⟨_, inside⟩)
    · exact isWordPart_iff.2 (.inl start)
    · exact parts d inside
  -- None of the classes that are tried before words starts with this character.
  have codes := isWordStart_iff.1 start
  have notDigit : ¬ c.isDigit = true := by
    rw [isDigit_iff]
    omega
  have notMark : c ≠ '$' ∧ c ≠ '\'' ∧ c ≠ '"' := by
    refine ⟨?_, ?_, ?_⟩ <;> rintro rfl <;> exact absurd codes (by decide)
  simp only [scan, notMark, notDigit, start, if_true, if_false]
  simp only [scanWord, ← List.cons_append, takeWhile_append_apart all apart fun _ => id,
    dropWhile_append_apart all apart fun _ => id, Bool.false_eq_true, if_false]

/-! ### Numbers -/

/-- One more digit counts the others once more. -/
theorem digitsValue_append {radix value : Nat} {d : Char} (digits : List Char)
    (digit : digit? radix d = some value) :
    digitsValue radix (digits ++ [d]) = digitsValue radix digits * radix + value := by
  -- The value is folded over the digits from the left.
  simp [digitsValue, List.filterMap_append, digit]

/-- Digits are scanned whole. -/
theorem scanDigits_append {lead : String} {radix : Nat} {digits : List Char}
    (all : ∀ c ∈ digits, isDigitOrBreak radix c = true) (some : ∃ c ∈ digits, c ≠ '_')
    (small : digitsValue radix digits < 0x8000000000000000) (apart : Apart rest) :
    scanDigits lead radix (digits ++ rest) =
      (.number (lead ++ String.ofList digits) (Int64.ofNat (digitsValue radix digits)), rest) := by
  -- What follows is apart, so it is no scale mark.
  have noScale : ∀ others, rest ≠ 'K' :: others := by
    rintro others rfl
    exact absurd (apart 'K' rfl) (by decide)
  have notBreaks : digits.all (· == '_') = false := by
    obtain ⟨c, inside, other⟩ := some
    refine List.all_eq_false.2 ⟨c, inside, ?_⟩
    simpa using other
  unfold scanDigits
  simp only [takeWhile_append_apart all apart fun _ => isWordPart_of_isDigitOrBreak,
    dropWhile_append_apart all apart fun _ => isWordPart_of_isDigitOrBreak]
  split
  · rename_i large
    simp only [notBreaks, Bool.false_or, decide_eq_true_eq] at large
    omega
  · simp

/-- A hexadecimal digit reads back as what it was written for. -/
theorem digit?_hexDigit {n : Nat} (small : n < 16) : digit? 16 (Text.hexDigit n) = some n := by
  -- Sixteen digits, each looked up in the three ranges.
  rcases n with _ | _ | _ | _ | _ | _ | _ | _ | _ | _ | _ | _ | _ | _ | _ | _ | n
  all_goals first | rfl | omega

/-- A decimal digit reads back as what it was written for. -/
theorem digit?_digitChar {n : Nat} (small : n < 10) : digit? 10 n.digitChar = some n := by
  -- Checked for each of the ten digits.
  rcases n with _ | _ | _ | _ | _ | _ | _ | _ | _ | _ | n
  all_goals first | rfl | omega

/-- A character that is a digit may stand among digits. -/
theorem isDigitOrBreak_of_digit? {radix value : Nat} {c : Char}
    (digit : digit? radix c = some value) : isDigitOrBreak radix c = true := by
  -- Being a digit is one of the two alternatives.
  simp [isDigitOrBreak, digit]

/-- Hexadecimal digits spell their number, and are digits all. -/
theorem hexDigits_spell (n : Nat) :
    digitsValue 16 (Text.hexDigits n) = n ∧
      ∀ c ∈ Text.hexDigits n, ∃ value, digit? 16 c = some value := by
  -- The last digit is the remainder, and the others spell the quotient.
  induction n using Text.hexDigits.induct with
  | case1 =>
    rw [Text.hexDigits]
    exact ⟨rfl, nofun⟩
  | case2 n positive ih =>
    have last := digit?_hexDigit (Nat.mod_lt n (by decide : 0 < 16))
    rw [Text.hexDigits, if_neg positive, digitsValue_append _ last, ih.1]
    refine ⟨by omega, fun c inside => ?_⟩
    rcases List.mem_append.1 inside with early | late
    · exact ih.2 c early
    · obtain rfl := List.mem_singleton.1 late
      exact ⟨_, last⟩

/-- Decimal digits spell their number, and are digits all. -/
theorem toDigits_spell (n : Nat) :
    digitsValue 10 (Nat.toDigits 10 n) = n ∧
      ∀ c ∈ Nat.toDigits 10 n, ∃ value, digit? 10 c = some value := by
  -- The last digit is the remainder, and the others spell the quotient.
  induction n using Nat.strongRecOn with
  | ind n ih =>
    rw [Nat.toDigits_eq_if (by decide)]
    split
    · rename_i small
      refine ⟨?_, fun c inside => ?_⟩
      · have value := digitsValue_append [] (digit?_digitChar small)
        simpa [digitsValue] using value
      · obtain rfl := List.mem_singleton.1 inside
        exact ⟨n, digit?_digitChar small⟩
    · have last := digit?_digitChar (Nat.mod_lt n (by decide : 0 < 10))
      have others := ih (n / 10) (by omega)
      rw [digitsValue_append _ last, others.1]
      refine ⟨by omega, fun c inside => ?_⟩
      rcases List.mem_append.1 inside with early | late
      · exact others.2 c early
      · obtain rfl := List.mem_singleton.1 late
        exact ⟨_, last⟩

/-- Digits with no letter behind the first one are decimal. -/
theorem scanNumber_decimal {c : Char} {more : List Char}
    (second : ∀ d ∈ more.head?, isWordStart d = false) :
    scanNumber (c :: more) = scanDigits "" 10 (c :: more) := by
  -- A radix mark would be the second character.
  unfold scanNumber
  split
  case h_5 => rfl
  -- Each radix mark is a letter.
  all_goals
    rename_i same
    cases same
    exact absurd (second _ rfl) (by decide)

/-- Decimal digits are digits. -/
theorem isDigit_of_mem_toDigits {n : Nat} : ∀ c ∈ Nat.toDigits 10 n, c.isDigit = true :=
  fun _ inside => Nat.isDigit_of_mem_toDigits (by decide) (by decide) inside

/-- A decimal number is scanned whole. -/
theorem scan_decimal {n : Nat} {c : Char} {more : List Char}
    (written : Nat.toDigits 10 n = c :: more) (small : n < 0x8000000000000000)
    (apart : Apart rest) :
    scan c (more ++ rest) =
      (.number ("" ++ String.ofList (Nat.toDigits 10 n)) (Int64.ofNat n), rest) := by
  obtain ⟨value, digits⟩ := toDigits_spell n
  have decimal : ∀ d ∈ c :: more, d.isDigit = true := written ▸ isDigit_of_mem_toDigits
  have isDigit := decimal c (List.mem_cons_self ..)
  have codes := isDigit_iff.1 isDigit
  have notMark : c ≠ '$' := by
    rintro rfl
    exact absurd codes (by decide)
  rw [scan, if_neg notMark, if_pos isDigit, scanNumber_decimal, ← List.cons_append, ← written,
    scanDigits_append, value]
  · -- All digits are digits of the base.
    exact fun d inside => isDigitOrBreak_of_digit? (digits d inside).choose_spec
  · -- There is one that is no break.
    refine ⟨c, written ▸ List.mem_cons_self .., ?_⟩
    rintro rfl
    exact absurd codes (by decide)
  · rwa [value]
  · exact apart
  · -- The second character is a digit, or stands apart.
    intro d second
    rw [Bool.eq_false_iff, ne_eq, isWordStart_iff]
    cases more with
    | nil =>
      have other := apart d second
      rw [Bool.eq_false_iff, ne_eq, isWordPart_iff, isWordStart_iff] at other
      exact fun start => other (.inl start)
    | cons e more =>
      obtain rfl : e = d := by simpa using second
      have digit := isDigit_iff.1 (decimal e (by simp))
      omega

/-- A hexadecimal number is scanned whole. -/
theorem scan_hexadecimal {n : Nat} (positive : 0 < n) (small : n < 0x8000000000000000)
    (apart : Apart rest) :
    scan '0' ('x' :: Text.hexDigits n ++ rest) =
      (.number ("0x" ++ String.ofList (Text.hexDigits n)) (Int64.ofNat n), rest) := by
  -- The digits are read behind the mark, and there is at least one.
  obtain ⟨value, digits⟩ := hexDigits_spell n
  show scanDigits "0x" 16 (Text.hexDigits n ++ rest) = _
  rw [scanDigits_append _ _ _ apart, value]
  · exact fun d inside => isDigitOrBreak_of_digit? (digits d inside).choose_spec
  · -- The digits of a positive number end with one, which is no underscore.
    have last := digit?_hexDigit (Nat.mod_lt n (by decide : 0 < 16))
    refine ⟨Text.hexDigit (n % 16), ?_, ?_⟩
    · rw [Text.hexDigits, if_neg (Nat.ne_of_gt positive)]
      exact List.mem_append_right _ (List.mem_singleton_self _)
    · intro same
      rw [same] at last
      cases last
  · rwa [value]

/-! ### Glyphs -/

/-- A glyph of one character is scanned as itself, unless it is doubled. -/
theorem scan_glyph {c : Char} {glyph : Glyph} (known : glyph? c = some glyph)
    (single : c ≠ '<' ∧ c ≠ '>') (rest : List Char) : scan c rest = (.glyph glyph, rest) := by
  -- No glyph starts a number, a literal or a word.
  have others : c ≠ '$' ∧ c.isDigit = false ∧ c ≠ '\'' ∧ c ≠ '"' ∧ isWordStart c = false := by
    unfold glyph? at known
    split at known
    case h_24 => cases known
    all_goals decide
  obtain ⟨noHex, noDigit, noChar, noText, noWord⟩ := others
  simp only [scan, noHex, noDigit, noChar, noText, noWord, if_false, Bool.false_eq_true]
  unfold scanGlyph
  split
  · exact absurd rfl single.1
  · exact absurd rfl single.2
  · rw [known]

end Lexeme

/-! ### Text that spells lexemes -/

/-- A line goes on with the lexeme that its first character starts. -/
theorem SourceLine.tokens_cons (line : SourceLine) (stop : Nat) {c : Char} {rest : List Char}
    (mark : Text.isBlank c = false) (noComment : c = '/' → Uncommenting rest) :
    ∃ stop', line.tokens false stop (c :: rest) =
      (line.token (Lexeme.scan c rest).1 (line.column (c :: rest)) ::
        (line.tokens false stop' (Lexeme.scan c rest).2).1,
        (line.tokens false stop' (Lexeme.scan c rest).2).2) := by
  -- The first character is no blank and starts no comment.
  refine ⟨line.column (c :: rest) + 1, ?_⟩
  rw [SourceLine.tokens.eq_def]
  simp only [Bool.false_eq_true, if_false, mark]
  -- A comment needs a slash or a star behind a slash.
  split
  · exact absurd rfl (noComment rfl _ rfl).1
  · exact absurd rfl (noComment rfl _ rfl).2
  · rfl

/-- Text on one line that is scanned as the given lexemes, wherever what follows is as asked. -/
structure Spells (text : List Char) (written : List Lexeme) (ahead : List Char → Prop) : Prop where
  /-- The text stays on its line. -/
  oneLine : '\n' ∉ text
  /-- The lexemes are scanned, and then what follows. -/
  scans : ∀ (line : SourceLine) (stop : Nat) ⦃rest : List Char⦄, ahead rest →
    ∃ tokens stop', lexemes tokens = written ∧
      line.tokens false stop (text ++ rest) =
        (tokens ++ (line.tokens false stop' rest).1, (line.tokens false stop' rest).2)

namespace Spells

variable {text early late : List Char} {written first second : List Lexeme}
  {middle ahead narrow : List Char → Prop}

/-- One text after another, when the second may follow the first. -/
theorem append (left : Spells early first middle) (right : Spells late second ahead)
    (joins : ∀ rest, ahead rest → middle (late ++ rest)) :
    Spells (early ++ late) (first ++ second) ahead := by
  -- The second text is what follows the first one.
  refine ⟨by simp [left.oneLine, right.oneLine], fun line stop rest follows => ?_⟩
  obtain ⟨tokens, stop', rfl, scanned⟩ := left.scans line stop (joins rest follows)
  obtain ⟨others, stop'', rfl, scanned'⟩ := right.scans line stop' follows
  refine ⟨tokens ++ others, stop'', by simp [lexemes], ?_⟩
  rw [List.append_assoc, scanned, scanned', List.append_assoc]

/-- Text asks no less of what follows when more is known of it. -/
theorem follows (spells : Spells text written ahead) (enough : ∀ rest, narrow rest → ahead rest) :
    Spells text written narrow :=
  ⟨spells.oneLine, fun line stop rest known => spells.scans line stop (enough rest known)⟩

/-- One lexeme. -/
theorem lexeme {c : Char} {more : List Char} {lexeme : Lexeme} (oneLine : '\n' ∉ c :: more)
    (mark : Text.isBlank c = false)
    (scanned : ∀ rest, ahead rest →
      Lexeme.scan c (more ++ rest) = (lexeme, rest) ∧ (c = '/' → Uncommenting (more ++ rest))) :
    Spells (c :: more) [lexeme] ahead := by
  -- The first character starts the lexeme, and the rest is left.
  refine ⟨oneLine, fun line stop rest follows => ?_⟩
  obtain ⟨scan, noComment⟩ := scanned rest follows
  obtain ⟨stop', tokens⟩ := line.tokens_cons stop mark noComment
  rw [scan] at tokens
  exact ⟨[_], stop', rfl, tokens⟩

/-- A word, up to text that is apart. -/
theorem word {word : String} (start : word.toList.head?.any Lexeme.isWordStart = true)
    (parts : ∀ c ∈ word.toList, Lexeme.isWordPart c = true) :
    Spells word.toList [Lexeme.ofWord word] Apart := by
  -- A word starts with no blank and no slash.
  obtain ⟨c, first, starts⟩ := (Option.any_eq_true ..).1 start
  obtain ⟨more, written⟩ := List.head?_eq_some_iff.1 first
  have codes := Lexeme.isWordStart_iff.1 starts
  rw [written]
  refine lexeme ?_ (Lexeme.isBlank_eq_false (by omega) (by omega)) fun rest apart => ⟨?_, ?_⟩
  · intro inside
    exact absurd (parts '\n' (written ▸ inside)) (by decide)
  · have others : ∀ d ∈ more, Lexeme.isWordPart d = true := by
      intro d inside
      exact parts d (written ▸ List.mem_cons_of_mem c inside)
    rw [Lexeme.scan_word starts others apart, ← written, String.ofList_toList]
  · rintro rfl
    exact absurd codes (by decide)

/-- A decimal number, up to text that is apart. -/
theorem decimal {n : Nat} (small : n < 0x8000000000000000) :
    ∃ spelling, Spells n.repr.toList [.number spelling (Int64.ofNat n)] Apart := by
  -- The text of a number is its digits, the first of which starts the lexeme.
  refine ⟨"" ++ String.ofList (Nat.toDigits 10 n), ?_⟩
  rw [Nat.toList_repr]
  obtain ⟨c, more, written⟩ := List.exists_cons_of_ne_nil (@Nat.toDigits_ne_nil n 10)
  have digits : ∀ d ∈ c :: more, d.isDigit = true := written ▸ Lexeme.isDigit_of_mem_toDigits
  have codes := Lexeme.isDigit_iff.1 (digits c (List.mem_cons_self ..))
  have spells : Spells (c :: more)
      [.number ("" ++ String.ofList (Nat.toDigits 10 n)) (Int64.ofNat n)] Apart := by
    refine lexeme ?_ (Lexeme.isBlank_eq_false (by omega) (by omega)) fun rest apart => ⟨?_, ?_⟩
    · intro inside
      exact absurd (digits '\n' inside) (by decide)
    · exact Lexeme.scan_decimal written small apart
    · rintro rfl
      exact absurd codes (by decide)
  rwa [written] at spells ⊢

/-- A hexadecimal number, up to text that is apart. -/
theorem hexadecimal {n : Nat} (positive : 0 < n) (small : n < 0x8000000000000000) :
    ∃ spelling, Spells ('0' :: 'x' :: Text.hexDigits n) [.number spelling (Int64.ofNat n)]
      Apart := by
  -- None of the characters ends the line.
  refine ⟨"0x" ++ String.ofList (Text.hexDigits n), ?_⟩
  refine lexeme ?_ (by decide) fun rest apart => ⟨?_, fun same => absurd same (by decide)⟩
  · rintro (_ | ⟨_, _ | ⟨_, inside⟩⟩)
    obtain ⟨value, digit⟩ := (Lexeme.hexDigits_spell n).2 _ inside
    exact absurd (Lexeme.isWordPart_of_isDigitOrBreak (Lexeme.isDigitOrBreak_of_digit? digit))
      (by decide)
  · exact Lexeme.scan_hexadecimal positive small apart

/-- A glyph of one character that starts no other. -/
theorem glyph {c : Char} {glyph : Glyph} (known : Lexeme.glyph? c = some glyph)
    (single : c ≠ '<' ∧ c ≠ '>' ∧ c ≠ '/') :
    Spells [c] [.glyph glyph] fun _ => True := by
  -- A glyph is no blank.
  have mark : '\n' ≠ c ∧ Text.isBlank c = false := by
    unfold Lexeme.glyph? at known
    split at known
    case h_24 => cases known
    all_goals decide
  refine lexeme (by simpa using mark.1) mark.2 fun rest _ => ⟨?_, fun same => ?_⟩
  · exact Lexeme.scan_glyph known ⟨single.1, single.2.1⟩ rest
  · exact absurd same single.2.2

end Spells

/-- Text without an end of line is one line. -/
theorem Text.lines_eq_singleton {text : List Char} (oneLine : '\n' ∉ text) (some : text ≠ []) :
    Text.lines text = [text] := by
  -- By induction on the text, in which no character ends the line.
  fun_induction Text.lines text with
  | case1 => exact absurd rfl some
  | case2 => simp at oneLine
  | case3 => simp at oneLine
  | case4 c rest _ _ none ih =>
    have same := ih fun inside => oneLine (List.mem_cons_of_mem c inside)
    cases rest with
    | nil => rfl
    | cons d rest =>
      rw [same (List.cons_ne_nil d rest)] at none
      cases none
  | case5 c rest _ _ line others more ih =>
    have same := ih fun inside => oneLine (List.mem_cons_of_mem c inside)
    cases rest with
    | nil => cases more
    | cons d rest =>
      rw [same (List.cons_ne_nil d rest)] at more
      cases more
      rfl

/-- Text that spells lexemes has their tokens, and the token of its end. -/
theorem Spells.ofText {text : String} {written : List Lexeme} {ahead : List Char → Prop}
    (spells : Spells text.toList written ahead) (some : text.toList ≠ []) (atEnd : ahead [])
    (file : String) (row : Nat) :
    ∃ tokens newline, Token.ofText file row text = tokens ++ [newline] ∧
      lexemes tokens = written ∧ newline.lexeme = .newline := by
  -- The text is one line, which is scanned to its end.
  obtain ⟨tokens, stop, same, scanned⟩ :=
    spells.scans ⟨file, row, Text.byteLength text.toList⟩ 0 atEnd
  refine ⟨tokens, SourceLine.token ⟨file, row, Text.byteLength text.toList⟩ .newline stop, ?_, same,
    rfl⟩
  rw [List.append_nil] at scanned
  rw [Token.ofText, Text.lines_eq_singleton spells.oneLine some]
  simp only [Token.ofLines, scanned, SourceLine.tokens, List.append_nil]

end CrossAsm

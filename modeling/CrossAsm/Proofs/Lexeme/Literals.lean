import CrossAsm.Proofs.Lexeme.Written

/-! Literals are read as what they spell: a text in quotes with its marks escaped, and a number in
any radix, its digits in either case and with underscores between them. -/

namespace CrossAsm

open Token (lexemes)

namespace Text

/-- A character as a text literal has it: the marks of the literal and what would end or upset its
line are escapes. -/
def escaped : Char → List Char
  | '\\' => ['\\', '\\']
  | '"' => ['\\', '"']
  | '\n' => ['\\', 'n']
  | '\r' => ['\\', 'r']
  | '\t' => ['\\', 't']
  | '\x00' => ['\\', '0']
  | c => [c]

/-- The literal of a text. -/
def literal (content : String) : String :=
  String.ofList ('"' :: content.toList.flatMap escaped ++ ['"'])

end Text

namespace Lexeme

/-! ### Text -/

/-- An escaped character stands for itself, and stays on the line. -/
theorem unescapes_escaped (c : Char) {content text : List Char} (others : Unescapes content text) :
    Unescapes (c :: content) (Text.escaped c ++ text) ∧ '\n' ∉ Text.escaped c := by
  -- Whatever is left as it is, is no mark of the literal and no end of a line.
  fun_cases Text.escaped c with
  | case7 _ backslash quote newline =>
    exact ⟨.plain ⟨quote, backslash⟩ others, by simpa using Ne.symm newline⟩
  | case1 | case2 | case3 | case4 | case5 | case6 => exact ⟨.escape rfl others, by decide⟩

/-- A literal is written for its text, on one line. -/
theorem written_literal (content : String) (after : List Char) :
    Written (.text content) (Text.literal content).toList after ∧
      '\n' ∉ (Text.literal content).toList := by
  -- Character by character: each is written for itself or behind an escape.
  have inside : ∀ content : List Char, Unescapes content (content.flatMap Text.escaped) := by
    intro content
    induction content with
    | nil => exact .nothing
    | cons c others ih => exact (unescapes_escaped c ih).1
  rw [Text.literal, String.toList_ofList]
  constructor
  · have ends : TextEnd content.toList (.text content) ['"'] after := by
      have closed : TextEnd content.toList (.text (String.ofList content.toList)) ['"'] after :=
        .closed
      rwa [String.ofList_toList] at closed
    exact .text (inside content.toList) ends
  · have oneLine : ∀ c ∈ content.toList, '\n' ∉ Text.escaped c :=
      fun c _ => (unescapes_escaped c .nothing).2
    simpa using oneLine

/-! ### Numbers -/

/-- Zeros before the digits of a number. -/
theorem digits_zeros {radix : Nat} (positive : 1 < radix) (zeros : Nat) :
    Digits radix 0 (List.replicate zeros '0') := by
  -- By induction on their number.
  induction zeros with
  | zero => exact .nothing
  | succ zeros ih =>
    have more := Digits.digit ih ⟨(by omega : 0 < radix), .inl (rfl : '0' = Nat.digitChar 0)⟩
    rwa [List.replicate_succ', ← Nat.zero_mul radix]

/-- The digits of a number spell it in any radix, also with zeros before them. -/
theorem digits_toDigits {radix : Nat} (positive : 1 < radix) (zeros n : Nat) :
    Digits radix n (List.replicate zeros '0' ++ Nat.toDigits radix n) := by
  -- The last digit is the remainder, and the others spell the quotient.
  induction n using Nat.strongRecOn with
  | ind n ih =>
    rw [Nat.toDigits_eq_if positive]
    split
    · rename_i small
      have alone := Digits.digit (digits_zeros positive zeros)
        ⟨small, .inl (rfl : n.digitChar = n.digitChar)⟩
      rwa [Nat.zero_mul, Nat.zero_add] at alone
    · rename_i large
      have fewer : n / radix < n := Nat.div_lt_self (by omega) positive
      have last : IsDigitOf radix (n % radix) (n % radix).digitChar :=
        ⟨Nat.mod_lt n (by omega), .inl rfl⟩
      have all := Digits.digit (ih _ fewer) last
      rwa [Nat.div_add_mod', List.append_assoc] at all

/-- The code point of a letter in lower case. -/
theorem toNat_toLower (c : Char) :
    c.toLower.toNat = if 65 ≤ c.toNat ∧ c.toNat ≤ 90 then c.toNat + 32 else c.toNat := by
  have codes : ∀ d : Char, d.val.toNat = d.toNat := fun _ => rfl
  have range : (c.val ≥ 'A'.val ∧ c.val ≤ 'Z'.val) ↔ 65 ≤ c.toNat ∧ c.toNat ≤ 90 := by
    simp [UInt32.le_iff_toNat_le, codes]
  unfold Char.toLower
  -- Letters in lower case come thirty-two code points behind those in upper case.
  by_cases upper : 65 ≤ c.toNat ∧ c.toNat ≤ 90
  · rw [dif_pos (range.2 upper), if_pos upper]
    show (c.val + ('a'.val - 'A'.val)).toNat = _
    rw [UInt32.toNat_add]
    simp [codes]
    omega
  · rw [dif_neg (mt range.1 upper), if_neg upper]

/-- A digit counts the same in either case. -/
theorem digit?_toLower (radix : Nat) (c : Char) : digit? radix c.toLower = digit? radix c := by
  -- The code points decide, and each range of letters is sent to the other.
  have codes : ∀ d : Char, d.val.toNat = d.toNat := fun _ => rfl
  simp only [digit?, Char.le_def, UInt32.le_iff_toNat_le, codes, Char.reduceToNat, toNat_toLower]
  grind

/-- Digits of a number as they may be written: in either case, with zeros before them, and with
underscores behind the first. -/
def IsWrittenIn (radix n : Nat) (cs : List Char) : Prop :=
  cs.head? ≠ some '_' ∧ ∃ zeros,
    (cs.filter (· != '_')).map Char.toLower = List.replicate zeros '0' ++ Nat.toDigits radix n

/-- Digits that may be written spell their number. -/
theorem IsWrittenIn.digits {radix n : Nat} {cs : List Char} (large : 1 < radix) (small : radix ≤ 16)
    (written : IsWrittenIn radix n cs) : Digits radix n cs := by
  obtain ⟨-, zeros, same⟩ := written
  -- In lower case and without underscores the digits are those of the number.
  obtain ⟨all, value⟩ := (digits_iff small).1 (digits_toDigits large zeros n)
  rw [← same] at all value
  refine (digits_iff small).2 ⟨fun c inside => ?_, ?_⟩
  · -- An underscore is a break; any other character is a digit in lower case.
    by_cases separator : c = '_'
    · simp [isDigitOrBreak, separator]
    · have part := all c.toLower (by simpa using ⟨c, ⟨inside, separator⟩, rfl⟩)
      -- In lower case it is no underscore either.
      have other : c.toLower ≠ '_' := by
        intro same
        have code := congrArg Char.toNat same
        rw [toNat_toLower] at code
        refine separator (Char.toNat_inj.1 ?_)
        grind
      simpa [isDigitOrBreak, separator, other, digit?_toLower] using part
  · -- Underscores are no digits.
    have counted : ∀ c, digit? radix c =
        if (c != '_') = true then digit? radix c.toLower else none := by
      intro c
      rw [digit?_toLower]
      split
      · rfl
      · rename_i separator
        obtain rfl : c = '_' := by simpa using separator
        exact digit?_underscore
    -- What is counted are the characters that are not dropped.
    rw [← value, digitsValue, digitsValue, List.filterMap_map, List.filterMap_filter]
    congr 2
    funext c
    exact counted c

/-- Digits that may be written start with one that is no underscore. -/
theorem IsWrittenIn.first {radix n : Nat} {cs : List Char} (written : IsWrittenIn radix n cs) :
    ∃ d ∈ cs.head?, d ≠ '_' := by
  -- The digits do not start with an underscore.
  obtain ⟨first, zeros, same⟩ := written
  -- A number has a digit, so that not all characters are underscores.
  cases cs with
  | nil =>
    have none := congrArg List.length same
    have some := List.length_pos_iff.2 (@Nat.toDigits_ne_nil n radix)
    simp only [List.filter_nil, List.map_nil, List.length_nil, List.length_append] at none
    omega
  | cons d more => exact ⟨d, rfl, fun separator => first (congrArg some separator)⟩

/-- The digits of a number with the mark of its base and that of its scale. -/
def numeral (base : Base) (cs : List Char) (scale : Scale) : String :=
  String.ofList (base.mark ++ cs ++ scale.mark)

/-- The digits below ten are decimal. -/
theorem IsDigitOf.isDigit {value : Nat} {c : Char} (digit : IsDigitOf 10 value c) :
    c.isDigit = true := by
  -- The digits below ten have code points of their own, in a row.
  obtain ⟨small, which⟩ := digit
  obtain ⟨lower, upper⟩ := toNat_digitChar value (by omega)
  rw [if_pos small] at lower upper
  rw [isDigit_iff]
  rcases which with rfl | rfl <;> omega

/-- Digits that do not start with an underscore are a number once their base is marked. -/
theorem starts_digits {base : Base} {n : Nat} {cs : List Char} {scale : Scale}
    (digits : Digits base.radix n cs) (first : ∃ d ∈ cs.head?, d ≠ '_') :
    base.Starts (cs ++ scale.mark) := by
  -- A mark says its base itself; only a decimal number has to start with a digit.
  cases base with
  | decimal =>
    obtain ⟨d, isFirst, other⟩ := first
    obtain ⟨more, rfl⟩ := List.head?_eq_some_iff.1 isFirst
    have small : Base.decimal.radix ≤ 16 := Base.decimal.radix_le
    obtain ⟨⟨head, tail⟩, -⟩ := (digits_iff small).1 digits |>.imp_left List.forall_mem_cons.1
    refine ⟨d, more ++ scale.mark, rfl, ?_, fun _ mark second => ?_⟩
    · obtain ⟨value, read⟩ : ∃ value, digit? Base.decimal.radix d = some value := by
        simpa [isDigitOrBreak, other, Option.isSome_iff_exists] using head
      exact ((digit?_eq_some_iff small).1 read).isDigit
    · -- Neither a decimal digit nor an underscore nor the mark of a scale is one of another radix.
      have inside : mark ∈ more ++ scale.mark := List.mem_of_mem_head? second
      refine ⟨?_, ?_, ?_, ?_⟩ <;> rintro rfl <;> rcases List.mem_append.1 inside with digit | scaled
      all_goals first
        | exact absurd (tail _ digit) (by decide)
        | exact absurd scaled (by cases scale <;> decide)
  | dollar | hexadecimal | hexadecimalUpper | binary | binaryUpper => trivial

/-- A number that is not too large once it is scaled is its product with the scale. -/
theorem toInt_scaled {n : Nat} {scale : Scale} (small : n * scale.factor < 2 ^ 63) :
    (Int64.ofNat n * Int64.ofNat scale.factor).toInt = (n * scale.factor : Nat) := by
  -- Below half of the words nothing wraps around.
  rw [← Int64.ofNat_mul, Int64.toInt_ofNat_of_lt small]

/-- A number is written for its product with the scale, on one line. -/
theorem written_numeral {base : Base} {n : Nat} {cs : List Char} {scale : Scale}
    (digits : Digits base.radix n cs) (first : ∃ d ∈ cs.head?, d ≠ '_')
    (small : n * scale.factor < 2 ^ 63) :
    Written (.number (base.lead ++ String.ofList (cs ++ scale.mark))
      (Int64.ofNat n * Int64.ofNat scale.factor)) (numeral base cs scale).toList [] ∧
      '\n' ∉ (numeral base cs scale).toList := by
  -- The mark of the base starts the number, and what ends it is the end of the text.
  rw [numeral, String.toList_ofList]
  constructor
  · -- A number that is small once it is scaled was so before.
    have unscaled : n ≤ n * scale.factor := Nat.le_mul_of_pos_right n (by cases scale <;> decide)
    have ends : scale.EndsBefore base.radix [] := by
      cases scale with
      | one => exact nofun
      | kilo => trivial
    obtain ⟨d, isFirst, other⟩ := first
    have starts : base.Starts (cs ++ scale.mark) := starts_digits digits ⟨d, isFirst, other⟩
    refine .number ?_ digits ends ⟨d, List.mem_of_mem_head? isFirst, other⟩ (by omega)
    rwa [List.append_nil]
  · have oneLine : '\n' ∉ base.mark ∧ '\n' ∉ scale.mark := by
      cases base <;> cases scale <;> decide
    -- Digits and underscores are parts of words, which ends of lines are not.
    have inDigits : '\n' ∉ cs := by
      intro inside
      have part := ((digits_iff base.radix_le).1 digits).1 _ inside
      exact absurd (isWordPart_of_isDigitOrBreak part) (by decide)
    simp [oneLine, inDigits]

end Lexeme

/-! ### Lines of one lexeme -/

/-- Text that is written as one lexeme is read as that and the end of its line. -/
theorem lexemes_of_written {lexeme : Lexeme} {text : String}
    (written : lexeme.Written text.toList []) (spoken : lexeme.isComment = false)
    (oneLine : '\n' ∉ text.toList) (file : String) (row : Nat) :
    lexemes (Token.ofText file row text) = [lexeme, .newline] := by
  -- A text of one lexeme is one line, which is scanned once and then is at its end.
  obtain ⟨c, more, same, mark, noComment, scanned⟩ := written.scan_eq spoken
  have spells : Spells text.toList [lexeme] (· = []) := by
    rw [same] at oneLine ⊢
    refine .lexeme oneLine mark ?_
    rintro rest rfl
    exact ⟨scanned, noComment⟩
  have some : text.toList ≠ [] := by simp [same]
  obtain ⟨tokens, newline, read, spoken, ended⟩ := spells.ofText some rfl file row
  unfold lexemes at spoken ⊢
  rw [read, List.map_append, spoken, List.map_singleton, ended]
  rfl

/-- Literals are read as what they spell, each alone on its line. A text is written in quotes, with
its marks escaped. A number is written in any base, with underscores behind its first digit and its
letters in either case, and counts what the mark of its scale says. -/
theorem literals_read_back (file : String) (row : Nat) :
    (∀ content : String,
      lexemes (Token.ofText file row (Text.literal content)) = [.text content, .newline]) ∧
    ∀ (base : Lexeme.Base) (n : Nat) (scale : Lexeme.Scale) (cs : List Char),
      Lexeme.IsWrittenIn base.radix n cs → n * scale.factor < 2 ^ 63 →
      ∃ (spelling : String) (value : Int64), value.toInt = (n * scale.factor : Nat) ∧
        lexemes (Token.ofText file row (Lexeme.numeral base cs scale)) =
          [.number spelling value, .newline] := by
  -- Both kinds of literal are written as one lexeme.
  refine ⟨fun content => ?_, fun base n scale cs inDigits small => ?_⟩
  · obtain ⟨written, oneLine⟩ := Lexeme.written_literal content []
    exact lexemes_of_written written rfl oneLine file row
  · have digits := inDigits.digits base.one_lt_radix base.radix_le
    obtain ⟨written, oneLine⟩ := Lexeme.written_numeral digits inDigits.first small
    exact ⟨_, _, Lexeme.toInt_scaled small, lexemes_of_written written rfl oneLine file row⟩

/-- The largest number of kilobytes, in hexadecimal with letters in both cases. -/
theorem largest_kilobytes_read_back :
    ∃ (spelling : String) (value : Int64), value.toInt = 0x7FFFFFFFFFFFFC00 ∧
      lexemes (Token.ofText "a" 0 "$1F_FfFF_FFFF_fFFF_K") = [.number spelling value, .newline] := by
  -- The largest number that still fits once it is scaled.
  have written : Lexeme.IsWrittenIn 16 0x1FFFFFFFFFFFFF "1F_FfFF_FFFF_fFFF_".toList :=
    ⟨by decide, 0, by decide⟩
  obtain ⟨spelling, value, counted, read⟩ :=
    (literals_read_back "a" 0).2 .dollar 0x1FFFFFFFFFFFFF .kilo _ written (by decide)
  exact ⟨spelling, value, counted, read⟩

end CrossAsm

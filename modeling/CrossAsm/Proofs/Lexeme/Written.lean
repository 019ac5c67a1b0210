import Mathlib
import CrossAsm.Proofs.Parser.Scanning

/-! How lexemes are written. Each has one form or more, and what follows it tells where it ends: a
word goes on as far as it can, a number up to its scale mark, a literal up to its quote. Scanning
finds a lexeme exactly where it is written. -/

namespace CrossAsm

open Text (Apart Uncommenting)

namespace Lexeme

/-! ### Forms -/

/-- A character that is the digit of a value, a letter in either case. -/
def IsDigitOf (radix value : Nat) (c : Char) : Prop :=
  value < radix ∧ (c = value.digitChar ∨ c = value.digitChar.toUpper)

/-- Digits with underscores between them, and the number that the digits spell. -/
inductive Digits (radix : Nat) : Nat → List Char → Prop
  | nothing : Digits radix 0 []
  | separator {n : Nat} {cs : List Char} (digits : Digits radix n cs) : Digits radix n (cs ++ ['_'])
  | digit {n value : Nat} {cs : List Char} {c : Char} (digits : Digits radix n cs)
    (last : IsDigitOf radix value c) : Digits radix (n * radix + value) (cs ++ [c])

/-- What a number is counted in. -/
inductive Scale where
  | one | kilo
  deriving DecidableEq

/-- How much the scale counts. -/
def Scale.factor : Scale → Nat
  | .one => 1
  | .kilo => 1024

/-- The mark of the scale behind the digits. -/
def Scale.mark : Scale → List Char
  | .one => []
  | .kilo => ['K']

/-- Text that does not go on with a number of a scale. -/
def Scale.EndsBefore (radix : Nat) : Scale → List Char → Prop
  | .one, after => ∀ c ∈ after.head?, isDigitOrBreak radix c = false ∧ c ≠ 'K'
  | .kilo, _ => True

/-- Text that starts with a decimal digit and with no mark of another radix. -/
def Unmarked (text : List Char) : Prop :=
  ∃ c more, text = c :: more ∧ c.isDigit = true ∧
    (c = '0' → ∀ mark ∈ more.head?, mark ≠ 'x' ∧ mark ≠ 'X' ∧ mark ≠ 'b' ∧ mark ≠ 'B')

/-- How the radix of a number is told. -/
inductive Base where
  | decimal | dollar | hexadecimal | hexadecimalUpper | binary | binaryUpper
  deriving DecidableEq

namespace Base

/-- The radix of a base. -/
def radix : Base → Nat
  | .decimal => 10
  | .dollar | .hexadecimal | .hexadecimalUpper => 16
  | .binary | .binaryUpper => 2

/-- What stands before the digits. -/
def mark : Base → List Char
  | .decimal => []
  | .dollar => ['$']
  | .hexadecimal => ['0', 'x']
  | .hexadecimalUpper => ['0', 'X']
  | .binary => ['0', 'b']
  | .binaryUpper => ['0', 'B']

/-- What a spelling keeps of the mark. -/
def lead : Base → String
  | .decimal => ""
  | .dollar => "$"
  | .hexadecimal | .hexadecimalUpper => "0x"
  | .binary | .binaryUpper => "0b"

/-- Text that is a number of the base once the mark stands before it. -/
def Starts : Base → List Char → Prop
  | .decimal, source => Unmarked source
  | _, _ => True

/-- A radix has two digits at least. -/
theorem one_lt_radix (base : Base) : 1 < base.radix := by
  -- Checked for each of the bases.
  cases base <;> decide

/-- Radices go up to sixteen. -/
theorem radix_le (base : Base) : base.radix ≤ 16 := by
  -- Checked for each of the bases.
  cases base <;> decide

end Base

/-- The content of a text literal, and how it is written. -/
inductive Unescapes : List Char → List Char → Prop
  | nothing : Unescapes [] []
  | plain {c : Char} {content text : List Char} (unmarked : c ≠ '"' ∧ c ≠ '\\')
    (others : Unescapes content text) : Unescapes (c :: content) (c :: text)
  | escape {c e : Char} {content text : List Char} (known : unescape e = some c)
    (others : Unescapes content text) : Unescapes (c :: content) ('\\' :: e :: text)

/-- How a text literal ends, and what it is then: text at its quote, and input of no class at the
end of the line or at an escape of no meaning. -/
inductive TextEnd (content : List Char) : Lexeme → List Char → List Char → Prop
  | closed {after : List Char} : TextEnd content (.text (String.ofList content)) ['"'] after
  | cut : TextEnd content (.invalid (String.ofList ('"' :: content))) [] []
  | cutEscape : TextEnd content (.invalid (String.ofList ('"' :: content ++ ['\\']))) ['\\'] []
  | badEscape {e : Char} {after : List Char} (unknown : unescape e = none) :
      TextEnd content (.invalid (String.ofList ('"' :: content ++ ['\\']))) ['\\', e] after

/-- What stands between the quotes of a character literal, and the character it is, if it is one. -/
inductive CharBody : Option Char → List Char → List Char → Prop
  | plain {c : Char} {after : List Char} (unmarked : c ≠ '\\') : CharBody (some c) [c] after
  | escape {e : Char} {after : List Char} : CharBody (unescape e) ['\\', e] after
  | cutEscape : CharBody none ['\\'] []
  | cut : CharBody none [] []

/-- A lexeme, the text it is written as, and the text behind it. -/
inductive Written : Lexeme → List Char → List Char → Prop
  | number {base : Base} {cs after : List Char} {n : Nat} {scale : Scale}
    (starts : base.Starts (cs ++ scale.mark ++ after)) (digits : Digits base.radix n cs)
    (ends : scale.EndsBefore base.radix after) (some : ∃ c ∈ cs, c ≠ '_')
    (small : n < 0x8000000000000000) :
    Written (.number (base.lead ++ String.ofList (cs ++ scale.mark))
      (Int64.ofNat n * Int64.ofNat scale.factor)) (base.mark ++ cs ++ scale.mark) after
  /-- A number has a digit, and is not too large before it is scaled. -/
  | misnumbered {base : Base} {cs after : List Char} {n : Nat} {scale : Scale}
    (starts : base.Starts (cs ++ scale.mark ++ after)) (digits : Digits base.radix n cs)
    (ends : scale.EndsBefore base.radix after)
    (wrong : (∀ c ∈ cs, c = '_') ∨ 0x8000000000000000 ≤ n) :
    Written (.invalid (base.lead ++ String.ofList (cs ++ scale.mark)))
      (base.mark ++ cs ++ scale.mark) after
  | char {c : Char} {body after : List Char} (inside : CharBody (some c) body ('\'' :: after)) :
    Written (.char c) ('\'' :: body ++ ['\'']) after
  /-- One more character is lost where a character literal goes wrong. -/
  | mischaracter {c? next : Option Char} {body after : List Char}
    (inside : CharBody c? body (next.toList ++ after)) (last : next = none → after = [])
    (wrong : c? = none ∨ next ≠ some '\'') :
    Written (.invalid "'") ('\'' :: body ++ next.toList) after
  | text {lexeme : Lexeme} {content body close after : List Char} (inside : Unescapes content body)
    (ends : TextEnd content lexeme close after) : Written lexeme ('"' :: body ++ close) after
  | keyword {k : Keyword} {after : List Char} (apart : Apart after) :
    Written (.keyword k) k.spelling.toList after
  | ident {c : Char} {more after : List Char} (start : isWordStart c = true)
    (parts : ∀ d ∈ more, isWordPart d = true)
    (new : Keyword.ofSpelling? (String.ofList (c :: more)) = none) (apart : Apart after) :
    Written (.ident (String.ofList (c :: more))) (c :: more) after
  | doubleLess {after : List Char} : Written (.glyph .doubleLess) ['<', '<'] after
  | doubleGreater {after : List Char} : Written (.glyph .doubleGreater) ['>', '>'] after
  | glyph {c : Char} {g : Glyph} {after : List Char} (known : glyph? c = some g)
    (single : c = '<' ∨ c = '>' → after.head? ≠ some c) (plain : c = '/' → Uncommenting after) :
    Written (.glyph g) [c] after
  | comment {body : List Char} :
    Written (.comment (String.ofList (Text.trimStart body))) ('/' :: '/' :: body) []
  | other {c : Char} {after : List Char} (mark : Text.isBlank c = false)
    (unnumbered : c ≠ '$' ∧ c.isDigit = false) (unquoted : c ≠ '\'' ∧ c ≠ '"')
    (wordless : isWordStart c = false) (unknown : glyph? c = none) :
    Written (.invalid (String.singleton c)) [c] after

/-! ### Numbers -/

/-- The code points of the digits below sixteen. -/
theorem toNat_digitChar : ∀ value < 16,
    value.digitChar.toNat = (if value < 10 then 48 else 87) + value ∧
      value.digitChar.toUpper.toNat = (if value < 10 then 48 else 55) + value := by
  -- Checked for each of the sixteen digits.
  decide

/-- A character has a value as a digit exactly if it is the digit of that value. -/
theorem digit?_eq_some_iff {radix value : Nat} (small : radix ≤ 16) {c : Char} :
    digit? radix c = some value ↔ IsDigitOf radix value c := by
  -- A digit below ten has the code of its value behind `0`, the others behind the letters.
  have codes : ∀ d : Char, d.val.toNat = d.toNat := fun _ => rfl
  simp only [digit?, Char.le_def, UInt32.le_iff_toNat_le, IsDigitOf, codes, Char.reduceToNat,
    Option.ite_none_right_eq_some, Option.some.injEq]
  by_cases below : value < radix
  · -- Below sixteen a digit and its value are told by each other's code points.
    obtain ⟨lower, upper⟩ := toNat_digitChar value (by omega)
    have same : ∀ d : Char, c = d ↔ c.toNat = d.toNat := fun d => Char.toNat_inj.symm
    rw [same, same, lower, upper]
    grind
  · constructor
    · rintro ⟨inside, rfl⟩
      exact absurd inside below
    · exact fun digit => absurd digit.1 below

/-- An underscore is no digit. -/
theorem digit?_underscore {radix : Nat} : digit? radix '_' = none := by
  -- It is in none of the three ranges.
  simp [digit?, Char.le_def, UInt32.le_iff_toNat_le]

/-- An underscore does not count. -/
theorem digitsValue_underscore {radix : Nat} (cs : List Char) :
    digitsValue radix (cs ++ ['_']) = digitsValue radix cs := by
  -- It is skipped, as anything that is no digit.
  simp [digitsValue, List.filterMap_append, digit?_underscore]

/-- Digits spell a number exactly if it is what they count. -/
theorem digits_iff {radix n : Nat} (small : radix ≤ 16) {cs : List Char} :
    Digits radix n cs ↔ (∀ c ∈ cs, isDigitOrBreak radix c = true) ∧ digitsValue radix cs = n := by
  -- By induction on how the digits are spelled, and back by induction on them.
  constructor
  · intro digits
    induction digits with
    -- No digits count nothing, an underscore counts nothing more, and a digit is the last one.
    | nothing => exact ⟨nofun, rfl⟩
    | separator _ ih =>
      rw [digitsValue_underscore, List.forall_mem_append, List.forall_mem_singleton]
      exact ⟨⟨ih.1, rfl⟩, ih.2⟩
    | digit _ last ih =>
      have read := (digit?_eq_some_iff small).2 last
      rw [digitsValue_append _ read, List.forall_mem_append, List.forall_mem_singleton]
      exact ⟨⟨ih.1, isDigitOrBreak_of_digit? read⟩, by rw [ih.2]⟩
  · rintro ⟨all, rfl⟩
    -- From the last digit on, for that one is added to what the others count.
    induction cs using List.reverseRecOn with
    | nil => exact .nothing
    | append_singleton cs c ih =>
      rw [List.forall_mem_append, List.forall_mem_singleton] at all
      have others := ih all.1
      -- The last character is an underscore or a digit.
      rcases Bool.or_eq_true_iff.1 all.2 with separator | digit
      · obtain rfl := beq_iff_eq.1 separator
        rw [digitsValue_underscore]
        exact .separator others
      · obtain ⟨value, read⟩ := Option.isSome_iff_exists.1 digit
        rw [digitsValue_append _ read]
        exact .digit others ((digit?_eq_some_iff small).1 read)

/-- What follows a number is no digit. -/
theorem Scale.not_digit {radix : Nat} (small : radix ≤ 16) {scale : Scale} {after : List Char}
    (ends : scale.EndsBefore radix after) :
    ∀ c ∈ (scale.mark ++ after).head?, isDigitOrBreak radix c = false := by
  -- What follows is the mark of the scale or the end of the number.
  cases scale with
  | one => exact fun c first => (ends c first).1
  | kilo =>
    rintro c ⟨⟩
    -- As a digit the mark would count twenty.
    have value : ¬ 20 < radix := by omega
    simp [isDigitOrBreak, digit?, Char.le_def, UInt32.le_iff_toNat_le, value]

/-- A number is scanned up to its scale mark. -/
theorem scanDigits_eq {lead : String} {radix n : Nat} (small : radix ≤ 16) {cs after : List Char}
    {scale : Scale} (digits : Digits radix n cs) (ends : scale.EndsBefore radix after) :
    scanDigits lead radix (cs ++ scale.mark ++ after) =
      (if (∀ c ∈ cs, c = '_') ∨ 0x8000000000000000 ≤ n then
        .invalid (lead ++ String.ofList (cs ++ scale.mark))
      else .number (lead ++ String.ofList (cs ++ scale.mark))
        (Int64.ofNat n * Int64.ofNat scale.factor), after) := by
  -- The spelling tells that all characters are digits, and what they count.
  obtain ⟨all, value⟩ := (digits_iff small).1 digits
  have next := Scale.not_digit small ends
  -- The digits are the longest run of them, for neither the mark of a scale nor what ends a number
  -- is one.
  have taken : (scale.mark ++ after).takeWhile (isDigitOrBreak radix) = [] ∧
      (scale.mark ++ after).dropWhile (isDigitOrBreak radix) = scale.mark ++ after := by
    cases following : scale.mark ++ after with
    | nil => exact ⟨rfl, rfl⟩
    | cons c others =>
      have other : ¬ isDigitOrBreak radix c = true :=
        Bool.eq_false_iff.1 (next c (by rw [following]; rfl))
      exact ⟨List.takeWhile_cons_of_neg other, List.dropWhile_cons_of_neg other⟩
  have breaks : cs.all (· == '_') = true ↔ ∀ c ∈ cs, c = '_' := by simp
  unfold scanDigits
  rw [List.append_assoc, List.takeWhile_append_of_pos all, List.dropWhile_append_of_pos all,
    taken.1, taken.2, List.append_nil]
  simp only [value, Bool.or_eq_true, decide_eq_true_eq, breaks]
  cases scale with
  | one =>
    have unscaled : ∀ rest, after ≠ 'K' :: rest := by
      rintro rest rfl
      exact (ends 'K' rfl).2 rfl
    simp only [Scale.mark, Scale.factor, List.append_nil, List.nil_append, String.append_empty]
    split <;> rfl
  | kilo =>
    simp only [Scale.mark, Scale.factor, List.singleton_append, String.ofList_append,
      String.append_assoc]
    split <;> rfl

/-- Any text starts with the digits of a number, perhaps with none. -/
theorem exists_digits {radix : Nat} (small : radix ≤ 16) (source : List Char) :
    ∃ n cs, ∃ scale : Scale, ∃ after, source = cs ++ scale.mark ++ after ∧ Digits radix n cs ∧
      scale.EndsBefore radix after := by
  -- The text is cut behind the longest run of digits.
  have cut : source.takeWhile (isDigitOrBreak radix) ++ source.dropWhile (isDigitOrBreak radix) =
      source := List.takeWhile_append_dropWhile
  have all : ∀ c ∈ source.takeWhile (isDigitOrBreak radix), isDigitOrBreak radix c = true :=
    fun c inside => List.mem_takeWhile_imp inside
  have digits := (digits_iff small).2 ⟨all, rfl⟩
  -- What follows the longest run of digits tells the scale.
  cases following : source.dropWhile (isDigitOrBreak radix) with
  | nil => exact ⟨_, _, .one, [], by simpa [following, Scale.mark] using cut.symm, digits, nofun⟩
  | cons c others =>
    by_cases mark : c = 'K'
    · subst mark
      exact ⟨_, _, .kilo, others, by simpa [following, Scale.mark] using cut.symm, digits, trivial⟩
    · refine ⟨_, _, .one, c :: others, by simpa [following, Scale.mark] using cut.symm, digits, ?_⟩
      rintro _ ⟨⟩
      have other := List.head?_dropWhile_not (isDigitOrBreak radix) source
      rw [following] at other
      exact ⟨by simpa using other, mark⟩

/-- Where digits follow the mark of their base, a number is scanned or one that is wrong. -/
theorem written_scanDigits {base : Base} {source : List Char} (starts : base.Starts source) :
    ∃ text, base.mark ++ source = text ++ (scanDigits base.lead base.radix source).2 ∧
      Written (scanDigits base.lead base.radix source).1 text
        (scanDigits base.lead base.radix source).2 := by
  -- The digits are those of some number, whatever follows.
  obtain ⟨n, cs, scale, after, rfl, digits, ends⟩ := exists_digits base.radix_le source
  rw [scanDigits_eq base.radix_le digits ends]
  refine ⟨base.mark ++ cs ++ scale.mark, by simp, ?_⟩
  -- The scan takes a number to be wrong for the same reasons.
  by_cases wrong : (∀ c ∈ cs, c = '_') ∨ 0x8000000000000000 ≤ n
  · rw [if_pos wrong]
    exact .misnumbered starts digits ends wrong
  · rw [if_neg wrong]
    rw [not_or, not_forall] at wrong
    obtain ⟨⟨c, other⟩, small⟩ := wrong
    rw [Classical.not_imp] at other
    exact .number starts digits ends ⟨c, other⟩ (Nat.lt_of_not_le small)

/-- Text with no mark of another radix is scanned as a decimal number. -/
theorem scanNumber_unmarked {source : List Char} (unmarked : Unmarked source) :
    scanNumber source = scanDigits "" 10 source := by
  -- A number starts with a digit here, behind which no mark of a base stands.
  obtain ⟨c, more, rfl, -, plain⟩ := unmarked
  unfold scanNumber
  -- The marks of the other radices are tried first, and none is there.
  split
  case h_5 => rfl
  all_goals
    rename_i same
    obtain ⟨rfl, rfl⟩ := List.cons.inj same
    have marks := plain rfl _ rfl
    simp at marks

/-- A number is scanned as it is written. -/
theorem scan_numeral {base : Base} {cs after : List Char} {scale : Scale}
    (starts : base.Starts (cs ++ scale.mark ++ after)) (ends : scale.EndsBefore base.radix after) :
    ∃ c more, base.mark ++ cs ++ scale.mark = c :: more ∧ Text.isBlank c = false ∧ c ≠ '/' ∧
      scan c (more ++ after) = scanDigits base.lead base.radix (cs ++ scale.mark ++ after) := by
  -- A base is told by its mark, and decimal numbers by having none.
  cases base with
  | decimal =>
    have number := scanNumber_unmarked starts
    obtain ⟨c, rest, whole, digit, -⟩ := starts
    have codes := isDigit_iff.1 digit
    have others : c ≠ '$' ∧ c ≠ '/' := by
      constructor <;> rintro rfl <;> exact absurd codes (by decide)
    -- The digit is one of the number, for what follows that starts with none.
    cases written : cs ++ scale.mark with
    | nil =>
      rw [written] at whole
      obtain ⟨rfl, unscaled⟩ := List.append_eq_nil_iff.1 written
      obtain rfl : after = c :: rest := whole
      -- A scale would have a mark.
      cases scale with
      | one =>
        have other := (ends c rfl).1
        rw [Base.radix, isDigitOrBreak_of_isDigit digit] at other
        cases other
      | kilo => cases unscaled
    | cons d more =>
      rw [written] at whole number
      obtain ⟨rfl, rfl⟩ := List.cons.inj whole
      refine ⟨d, more, written, isBlank_eq_false (by omega) (by omega), others.2, ?_⟩
      rw [scan, if_neg others.1, if_pos digit]
      exact number
  -- The other bases are told by what they start with.
  | dollar => exact ⟨'$', cs ++ scale.mark, rfl, by decide, by decide, rfl⟩
  | hexadecimal => exact ⟨'0', 'x' :: cs ++ scale.mark, rfl, by decide, by decide, rfl⟩
  | hexadecimalUpper => exact ⟨'0', 'X' :: cs ++ scale.mark, rfl, by decide, by decide, rfl⟩
  | binary => exact ⟨'0', 'b' :: cs ++ scale.mark, rfl, by decide, by decide, rfl⟩
  | binaryUpper => exact ⟨'0', 'B' :: cs ++ scale.mark, rfl, by decide, by decide, rfl⟩

/-- Text that starts with a decimal digit starts with the mark of a base. -/
theorem exists_base {c : Char} (digit : c.isDigit = true) (rest : List Char) :
    ∃ base : Base, ∃ source, c :: rest = base.mark ++ source ∧ base.Starts source ∧
      scanNumber (c :: rest) = scanDigits base.lead base.radix source := by
  -- A number is decimal unless a mark of another radix follows a zero.
  by_cases plain : c = '0' → ∀ mark ∈ rest.head?, mark ≠ 'x' ∧ mark ≠ 'X' ∧ mark ≠ 'b' ∧ mark ≠ 'B'
  · have unmarked : Unmarked (c :: rest) := ⟨c, rest, rfl, digit, plain⟩
    exact ⟨.decimal, _, rfl, unmarked, scanNumber_unmarked unmarked⟩
  · simp only [Classical.not_imp, not_forall] at plain
    obtain ⟨rfl, d, second, mark⟩ := plain
    obtain ⟨more, rfl⟩ := List.head?_eq_some_iff.1 second
    have marks : d = 'x' ∨ d = 'X' ∨ d = 'b' ∨ d = 'B' := by
      by_contra none
      simp only [not_or] at none
      exact mark none
    rcases marks with rfl | rfl | rfl | rfl
    · exact ⟨.hexadecimal, _, rfl, trivial, rfl⟩
    · exact ⟨.hexadecimalUpper, _, rfl, trivial, rfl⟩
    · exact ⟨.binary, _, rfl, trivial, rfl⟩
    · exact ⟨.binaryUpper, _, rfl, trivial, rfl⟩

/-! ### Literals -/

/-- A text literal is scanned up to its end. -/
theorem scanText_eq {lexeme : Lexeme} {content body close after : List Char}
    (inside : Unescapes content body) (read : List Char)
    (ends : TextEnd (read ++ content) lexeme close after) :
    scanText read (body ++ close ++ after) = (lexeme, after) := by
  -- By induction on the content, of which each character goes over to what was read.
  induction inside generalizing read with
  | nothing =>
    rw [List.append_nil] at ends
    cases ends with
    | badEscape unknown => simp only [List.nil_append, List.cons_append, scanText, unknown]
    | closed | cut | cutEscape => rfl
  | @plain c content text unmarked _ ih =>
    have step : scanText read (c :: (text ++ close ++ after)) =
        scanText (read ++ [c]) (text ++ close ++ after) := by
      rw [scanText]
      · exact unmarked.1
      · exact fun same _ => unmarked.2 same
      · exact fun _ _ same _ => unmarked.2 same
    exact step.trans (ih _ (by simpa using ends))
  | @escape c e content text known _ ih =>
    have step : scanText read ('\\' :: e :: (text ++ close ++ after)) =
        scanText (read ++ [c]) (text ++ close ++ after) := by
      rw [scanText, known]
    exact step.trans (ih _ (by simpa using ends))

/-- After its opening quote any text is that of a literal, perhaps of one that goes wrong. -/
theorem exists_textEnd (read source : List Char) :
    ∃ content body lexeme close after, source = body ++ close ++ after ∧
      Unescapes content body ∧ TextEnd (read ++ content) lexeme close after := by
  -- The scan has a case for each way to end, and goes on in the two others.
  fun_induction scanText read source with
  | case1 read => exact ⟨[], [], _, [], [], rfl, .nothing, by simpa using .cut⟩
  | case2 read rest => exact ⟨[], [], _, ['"'], rest, rfl, .nothing, by simpa using .closed⟩
  | case3 read => exact ⟨[], [], _, ['\\'], [], rfl, .nothing, by simpa using .cutEscape⟩
  | case4 read e rest c known ih =>
    obtain ⟨content, body, lexeme, close, after, rfl, inside, ends⟩ := ih
    exact ⟨c :: content, '\\' :: e :: body, lexeme, close, after, rfl, .escape known inside,
      by simpa using ends⟩
  | case5 read e rest unknown =>
    exact ⟨[], [], _, ['\\', e], rest, rfl, .nothing, by simpa using .badEscape unknown⟩
  | case6 read c rest unquoted notLast unescaped ih =>
    obtain ⟨content, body, lexeme, close, after, rfl, inside, ends⟩ := ih
    -- A backslash would have been read with what follows it.
    have plain : c ≠ '"' ∧ c ≠ '\\' := by
      refine ⟨unquoted, ?_⟩
      rintro rfl
      cases following : body ++ close ++ after with
      | nil => exact notLast rfl following
      | cons e others => exact unescaped e others rfl following
    exact ⟨c :: content, c :: body, lexeme, close, after, rfl, .plain plain inside,
      by simpa using ends⟩

/-- The body of a character literal is read as it is written. -/
theorem scanCharBody_eq {c? : Option Char} {body after : List Char}
    (inside : CharBody c? body after) :
    scanCharBody (body ++ after) = (c?, after) := by
  -- One case for each way to write the body.
  cases inside with
  | plain unmarked =>
    show scanCharBody (_ :: after) = _
    rw [scanCharBody]
    · exact fun same _ => unmarked same
    · exact fun _ _ same _ => unmarked same
  | escape | cutEscape | cut => rfl

/-- After its opening quote any text is that of a character literal, perhaps of one that goes
wrong. -/
theorem exists_charBody (source : List Char) :
    ∃ c? body after, source = body ++ after ∧ CharBody c? body after := by
  -- By the cases that the scan itself distinguishes.
  fun_cases scanCharBody source with
  | case1 => exact ⟨none, [], [], rfl, .cut⟩
  | case2 => exact ⟨none, ['\\'], [], rfl, .cutEscape⟩
  | case3 e rest => exact ⟨_, ['\\', e], rest, rfl, .escape⟩
  | case4 c rest notLast unescaped =>
    refine ⟨some c, [c], rest, rfl, .plain ?_⟩
    rintro rfl
    cases rest with
    | nil => exact notLast rfl rfl
    | cons e others => exact unescaped e others rfl rfl

/-! ### Words and glyphs -/

/-- A reserved word is read as itself. -/
theorem ofSpelling?_spelling (k : Keyword) : Keyword.ofSpelling? k.spelling = some k := by
  -- Checked for each of the words.
  cases k <;> rfl

/-- What is read as a reserved word is its spelling. -/
theorem spelling_of_ofSpelling? {word : String} {k : Keyword}
    (read : Keyword.ofSpelling? word = some k) : k.spelling = word := by
  -- It is found by comparing spellings.
  unfold Keyword.ofSpelling? at read
  have same := List.find?_some read
  exact beq_iff_eq.1 same

/-- A reserved word is written as a word. -/
theorem keyword_parts (k : Keyword) : ∃ c more, k.spelling.toList = c :: more ∧
    isWordStart c = true ∧ ∀ d ∈ more, isWordPart d = true := by
  -- Checked for each of the words.
  cases k <;> exact ⟨_, _, rfl, by decide, List.all_eq_true.1 rfl⟩

/-- A glyph starts none of the classes that are tried before it. -/
theorem glyph_mark {c : Char} {g : Glyph} (known : glyph? c = some g) :
    Text.isBlank c = false ∧ c ≠ '$' ∧ c.isDigit = false ∧ c ≠ '\'' ∧ c ≠ '"' ∧
      isWordStart c = false := by
  -- The characters that are glyphs are tried one by one.
  unfold glyph? at known
  split at known
  case h_24 => cases known
  all_goals decide

/-- Punctuation and characters of no class are tried last. -/
theorem scan_eq_scanGlyph {c : Char} (unnumbered : c ≠ '$' ∧ c.isDigit = false)
    (unquoted : c ≠ '\'' ∧ c ≠ '"') (wordless : isWordStart c = false) (rest : List Char) :
    scan c rest = scanGlyph c rest := by
  -- The other classes of first characters are excluded one by one.
  simp only [scan, unnumbered, unquoted, wordless, if_false, Bool.false_eq_true]

/-- A character that is not doubled is scanned alone. -/
theorem scanGlyph_single {c : Char} {rest : List Char}
    (single : c = '<' ∨ c = '>' → rest.head? ≠ some c) :
    scanGlyph c rest =
      (match glyph? c with
        | some g => .glyph g
        | none => .invalid (String.singleton c), rest) := by
  -- Only two of the marks can be doubled.
  unfold scanGlyph
  split
  · exact absurd rfl (single (.inl rfl))
  · exact absurd rfl (single (.inr rfl))
  · cases glyph? c <;> rfl

/-! ### Scanning -/

/-- Where no comment starts, scanning finds a lexeme that is written. -/
theorem exists_written {c : Char} {rest : List Char} (mark : Text.isBlank c = false)
    (plain : c = '/' → Uncommenting rest) :
    ∃ text, c :: rest = text ++ (scan c rest).2 ∧
      Written (scan c rest).1 text (scan c rest).2 := by
  -- The classes, in the order in which the scan tries them.
  by_cases dollar : c = '$'
  · -- A mark of the hexadecimal base.
    subst dollar
    have starts : Base.dollar.Starts rest := trivial
    exact written_scanDigits starts
  -- A digit, which starts a number of some base.
  by_cases digit : c.isDigit = true
  · obtain ⟨base, source, same, starts, number⟩ := exists_base digit rest
    rw [scan, if_neg dollar, if_pos digit, number, same]
    exact written_scanDigits starts
  by_cases quote : c = '\''
  · subst quote
    obtain ⟨c?, body, after, rfl, inside⟩ := exists_charBody rest
    have scanned : scan '\'' (body ++ after) = scanChar (body ++ after) := rfl
    rw [scanned, scanChar, scanCharBody_eq inside]
    -- Either a quote closes the character, or one more is taken.
    split
    · rename_i c others read
      obtain ⟨rfl, rfl⟩ := Prod.mk.inj read
      exact ⟨'\'' :: body ++ ['\''], by simp, .char inside⟩
    · rename_i other others wrong read
      obtain ⟨rfl, rfl⟩ := Prod.mk.inj read
      -- One more character is lost, unless the line ends here.
      have cut : after = after.head?.toList ++ after.drop 1 := by cases after <;> rfl
      refine ⟨'\'' :: body ++ after.head?.toList, ?_, .mischaracter (cut ▸ inside) ?_ ?_⟩
      · rw [List.append_assoc, ← cut]
        rfl
      · intro none
        rw [List.head?_eq_none_iff.1 none]
        rfl
      · by_contra right
        rw [not_or, not_ne_iff] at right
        obtain ⟨c, rfl⟩ := Option.ne_none_iff_exists'.1 right.1
        obtain ⟨others, rfl⟩ := List.head?_eq_some_iff.1 right.2
        exact wrong c others rfl rfl
  -- A text goes up to the next mark, or to the end of the line.
  by_cases quotes : c = '"'
  · subst quotes
    obtain ⟨content, body, lexeme, close, after, rfl, inside, ends⟩ := exists_textEnd [] rest
    have scanned : scan '"' (body ++ close ++ after) = scanText [] (body ++ close ++ after) := rfl
    rw [scanned, scanText_eq inside [] ends]
    exact ⟨'"' :: body ++ close, rfl, .text inside ends⟩
  -- A word is reserved or an identifier.
  by_cases start : isWordStart c = true
  · have cut : rest.takeWhile isWordPart ++ rest.dropWhile isWordPart = rest :=
      List.takeWhile_append_dropWhile
    have parts : ∀ d ∈ rest.takeWhile isWordPart, isWordPart d = true :=
      fun d inside => List.mem_takeWhile_imp inside
    -- The word has gone on as far as it can.
    have apart : Apart (rest.dropWhile isWordPart) := by
      intro d first
      have other := List.head?_dropWhile_not isWordPart rest
      rw [first] at other
      exact Bool.eq_false_iff.2 (by simpa using other)
    have scanned := scan_word start parts apart
    rw [cut] at scanned
    rw [scanned]
    refine ⟨c :: rest.takeWhile isWordPart, by rw [List.cons_append, cut], ?_⟩
    rw [ofWord]
    split
    · rename_i k read
      have written : Written (.keyword k) k.spelling.toList _ := .keyword apart
      rwa [spelling_of_ofSpelling? read, String.toList_ofList] at written
    · rename_i new
      exact .ident start parts new apart
  rw [Bool.not_eq_true] at digit start
  rw [scan_eq_scanGlyph ⟨dollar, digit⟩ ⟨quote, quotes⟩ start]
  -- Two marks of one comparison make up a shift.
  by_cases doubled : (c = '<' ∨ c = '>') ∧ rest.head? = some c
  · obtain ⟨which, second⟩ := doubled
    obtain ⟨others, rfl⟩ := List.head?_eq_some_iff.1 second
    rcases which with rfl | rfl
    · exact ⟨['<', '<'], rfl, .doubleLess⟩
    · exact ⟨['>', '>'], rfl, .doubleGreater⟩
  · -- All else is a single character, with a meaning or without.
    have single : c = '<' ∨ c = '>' → rest.head? ≠ some c :=
      fun which second => doubled ⟨which, second⟩
    rw [scanGlyph_single single]
    refine ⟨[c], rfl, ?_⟩
    cases known : glyph? c with
    | some g => exact .glyph known single plain
    | none => exact .other mark ⟨dollar, digit⟩ ⟨quote, quotes⟩ start known

/-- Where no comment starts, scanning finds a lexeme that is written from there on. -/
theorem written_scan {c : Char} {rest : List Char} (mark : Text.isBlank c = false)
    (plain : c = '/' → Uncommenting rest) :
    ∃ more, rest = more ++ (scan c rest).2 ∧
      Written (scan c rest).1 (c :: more) (scan c rest).2 := by
  -- What is scanned is what is written there, for scanning is a function.
  obtain ⟨text, same, written⟩ := exists_written mark plain
  cases text with
  | nil =>
    -- At least the first character is taken.
    have taken := scan_length c rest
    have lengths := congrArg List.length same
    simp only [List.nil_append, List.length_cons] at lengths
    omega
  | cons d more =>
    obtain ⟨rfl, behind⟩ := List.cons.inj same
    exact ⟨more, behind, written⟩

/-- What is written as a lexeme is scanned as it, unless it is a comment. -/
theorem Written.scan_eq {lexeme : Lexeme} {text after : List Char}
    (written : Written lexeme text after) (spoken : lexeme.isComment = false) :
    ∃ c more, text = c :: more ∧ Text.isBlank c = false ∧ (c = '/' → Uncommenting (more ++ after)) ∧
      scan c (more ++ after) = (lexeme, after) := by
  -- The first character of each form tells its class.
  cases written with
  | @number base cs after n scale starts digits ends some small =>
    -- Numbers are scanned digit by digit, up to what cannot go on.
    obtain ⟨c, more, same, noBlank, slash, scanned⟩ := scan_numeral starts ends
    refine ⟨c, more, same, noBlank, fun comment => absurd comment slash, ?_⟩
    rw [scanned, scanDigits_eq base.radix_le digits ends, if_neg]
    rintro (breaks | large)
    · obtain ⟨d, inside, other⟩ := some
      exact other (breaks d inside)
    · omega
  | @misnumbered base cs after n scale starts digits ends wrong =>
    obtain ⟨c, more, same, noBlank, slash, scanned⟩ := scan_numeral starts ends
    refine ⟨c, more, same, noBlank, fun comment => absurd comment slash, ?_⟩
    rw [scanned, scanDigits_eq base.radix_le digits ends, if_pos wrong]
  | @char c body after inside =>
    -- Characters and texts end at their marks.
    refine ⟨'\'', body ++ ['\''], rfl, by decide, nofun, ?_⟩
    show scanChar (body ++ ['\''] ++ after) = _
    rw [List.append_assoc, List.singleton_append, scanChar, scanCharBody_eq inside]
    rfl
  | @mischaracter c? next body after inside last wrong =>
    refine ⟨'\'', body ++ next.toList, rfl, by decide, nofun, ?_⟩
    show scanChar (body ++ next.toList ++ after) = _
    rw [List.append_assoc, scanChar, scanCharBody_eq inside]
    -- No quote follows where it should, so that what is there is not taken for one.
    split
    · rename_i c others read
      obtain ⟨rfl, quoted⟩ := Prod.mk.inj read
      cases next with
      | none =>
        rw [last rfl] at quoted
        cases quoted
      | some d =>
        obtain ⟨rfl, rfl⟩ := List.cons.inj quoted
        simp at wrong
    · rename_i other others _ read
      obtain ⟨rfl, rfl⟩ := Prod.mk.inj read
      cases next with
      | none =>
        rw [last rfl]
        rfl
      | some d => rfl
  | @text _ content body close _ inside ends =>
    refine ⟨'"', body ++ close, rfl, by decide, nofun, ?_⟩
    show scanText [] (body ++ close ++ after) = _
    rw [scanText_eq inside [] ends]
  | @keyword k after apart =>
    -- A reserved word is scanned as any other, and known by its spelling then.
    obtain ⟨c, more, spelled, start, parts⟩ := keyword_parts k
    have codes := isWordStart_iff.1 start
    refine ⟨c, more, spelled, isBlank_eq_false (by omega) (by omega), ?_, ?_⟩
    · rintro rfl
      exact absurd codes (by decide)
    · rw [scan_word start parts apart, ← spelled, String.ofList_toList, ofWord,
        ofSpelling?_spelling]
  | @ident c more after start parts new apart =>
    -- So is an identifier, which is none of the reserved words.
    have codes := isWordStart_iff.1 start
    refine ⟨c, more, rfl, isBlank_eq_false (by omega) (by omega), ?_, ?_⟩
    · rintro rfl
      exact absurd codes (by decide)
    · rw [scan_word start parts apart, ofWord, new]
  | doubleLess => exact ⟨'<', _, rfl, by decide, nofun, rfl⟩
  | doubleGreater => exact ⟨'>', _, rfl, by decide, nofun, rfl⟩
  | @glyph c g after known single plain =>
    -- The classes that are tried before glyphs do not have this one.
    obtain ⟨noBlank, dollar, digit, quote, quotes, start⟩ := glyph_mark known
    refine ⟨c, [], rfl, noBlank, plain, ?_⟩
    rw [List.nil_append, scan_eq_scanGlyph ⟨dollar, digit⟩ ⟨quote, quotes⟩ start,
      scanGlyph_single single, known]
  | comment => cases spoken
  | @other c after mark unnumbered unquoted wordless unknown =>
    -- What has no class is scanned last.
    refine ⟨c, [], rfl, mark, ?_, ?_⟩
    · rintro rfl
      cases unknown
    · rw [List.nil_append, scan_eq_scanGlyph unnumbered unquoted wordless, scanGlyph_single,
        unknown]
      rintro (rfl | rfl) <;> cases unknown

/-- A comment is written behind two slashes, and goes on to the end of the line. -/
theorem Written.of_isComment {lexeme : Lexeme} {text after : List Char}
    (written : Written lexeme text after) (silent : lexeme.isComment = true) :
    ∃ body, lexeme = .comment (String.ofList (Text.trimStart body)) ∧ text = '/' :: '/' :: body ∧
      after = [] := by
  -- Only one way to write a lexeme is that of a comment.
  cases written with
  | comment => exact ⟨_, rfl, rfl, rfl⟩
  | text inside ends => cases ends <;> cases silent
  | _ => cases silent

/-- No end of a line is written as a lexeme. -/
theorem Written.ne_newline {lexeme : Lexeme} {text after : List Char}
    (written : Written lexeme text after) : lexeme ≠ .newline := by
  -- The forms that lexemes are written in have none for it.
  rintro rfl
  cases written with
  | text inside ends => cases ends

end Lexeme

end CrossAsm

import CrossAsm.Pos
import CrossAsm.Text.Quoted

/-! Lexical classes of source text, and the tokens that carry them. -/

namespace CrossAsm

/-- Punctuation, named for its glyph. -/
inductive Glyph where
  | doubleLess | doubleGreater | less | greater | equal | plus | minus | star | slash | percent
  | ampersand | pipe | caret | tilde | hash | colon | semicolon | comma | period
  | leftParen | rightParen | leftBracket | rightBracket | leftCurly | rightCurly
  deriving DecidableEq

/-- The glyph's name in messages. -/
def Glyph.name : Glyph → String
  | .doubleLess => "LAngleLAngle"
  | .doubleGreater => "RAngleRAngle"
  | .less => "LAngle"
  | .greater => "RAngle"
  | .equal => "Equal"
  | .plus => "Plus"
  | .minus => "Minus"
  | .star => "Star"
  | .slash => "Slash"
  | .percent => "Percent"
  | .ampersand => "Ampasand"
  | .pipe => "Pipe"
  | .caret => "Caret"
  | .tilde => "Tilde"
  | .hash => "Hash"
  | .colon => "Colon"
  | .semicolon => "Semicolon"
  | .comma => "Comma"
  | .period => "Period"
  | .leftParen => "LParen"
  | .rightParen => "RParen"
  | .leftBracket => "LBracket"
  | .rightBracket => "RBracket"
  | .leftCurly => "LCurly"
  | .rightCurly => "RCurly"

/-- Reserved words. -/
inductive Keyword where
  | function | inline | interrupt | noreturn | ifWord | elseWord | whileWord | doWord | forever
  | switch | case
  | default | returnWord | struct | typedef | enum | shared | sizeof
  deriving DecidableEq

namespace Keyword

/-- Every reserved word. -/
def all : List Keyword :=
  [.function, .inline, .interrupt, .noreturn, .ifWord, .elseWord, .whileWord, .doWord, .forever,
   .switch, .case, .default, .returnWord, .struct, .typedef, .enum, .shared, .sizeof]

/-- The word as it is written. -/
def spelling : Keyword → String
  | .function => "function"
  | .inline => "inline"
  | .interrupt => "interrupt"
  | .noreturn => "noreturn"
  | .ifWord => "if"
  | .elseWord => "else"
  | .whileWord => "while"
  | .doWord => "do"
  | .forever => "forever"
  | .switch => "switch"
  | .case => "case"
  | .default => "default"
  | .returnWord => "return"
  | .struct => "struct"
  | .typedef => "typedef"
  | .enum => "enum"
  | .shared => "shared"
  | .sizeof => "sizeof"

/-- The word's name in messages. -/
def name : Keyword → String
  | .function => "KwFunction"
  | .inline => "KwInline"
  | .interrupt => "KwInterrupt"
  | .noreturn => "KwNoreturn"
  | .ifWord => "KwIf"
  | .elseWord => "KwElse"
  | .whileWord => "KwWhile"
  | .doWord => "KwDo"
  | .forever => "KwForever"
  | .switch => "KwSwitch"
  | .case => "KwCase"
  | .default => "KwDefault"
  | .returnWord => "KwReturn"
  | .struct => "KwStruct"
  | .typedef => "KwTypedef"
  | .enum => "KwEnum"
  | .shared => "KwShared"
  | .sizeof => "KwSizeof"

/-- Reads a reserved word, in exactly its own letters. -/
def ofSpelling? (word : String) : Option Keyword :=
  all.find? fun keyword => keyword.spelling == word

end Keyword

/-- A piece of source text by its lexical class. -/
inductive Lexeme where
  | glyph (g : Glyph)
  | keyword (k : Keyword)
  | ident (name : String)
  /-- A number with its spelling. -/
  | number (spelling : String) (value : Int64)
  | text (content : String)
  | char (c : Char)
  | newline
  | comment (content : String)
  /-- Input of no class, kept for the parser to report. -/
  | invalid (content : String)
  deriving DecidableEq

namespace Lexeme

/-- Whether a lexeme is a comment. -/
def isComment : Lexeme → Bool
  | .comment _ => true
  | _ => false

/-- How a message names a lexeme. -/
def render : Lexeme → String
  | .glyph g => g.name
  | .keyword k => k.name
  | .ident name => "identifier " ++ name
  | .number spelling _ => "number " ++ spelling
  | .text content => "text " ++ Text.quoted content
  | .char c => "char " ++ Text.quotedChar c
  | .newline => "end of line"
  | .comment content => "comment " ++ Text.quoted content
  | .invalid content => "invalid input " ++ Text.quoted content

end Lexeme

/-- A lexeme and where it starts. -/
structure Token where
  /-- The lexeme. -/
  lexeme : Lexeme
  /-- The position of its first character. -/
  pos : Pos
  deriving DecidableEq

end CrossAsm

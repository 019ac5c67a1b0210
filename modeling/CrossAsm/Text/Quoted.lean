import CrossAsm.Text.Hex
import CrossAsm.Text.Hidden

/-! Quoted text in messages: what is hidden or would end the quotation is written as an escape. -/

namespace CrossAsm.Text

/-- Lower-case hexadecimal escape of a code point. -/
def escapeCode (c : Char) : String :=
  "\\u\x7b" ++ String.ofList ((hex 1 c.toNat).toList.map Char.toLower) ++ "\x7d"

/-- One character inside a quotation that ends at `quote`. -/
def quoteChar (quote c : Char) : String :=
  match c with
  | '\x00' => "\\0"
  | '\t' => "\\t"
  | '\r' => "\\r"
  | '\n' => "\\n"
  | '\\' => "\\\\"
  | c =>
    if c = quote then String.ofList ['\\', c]
    else if isHidden c then escapeCode c
    else String.singleton c

/-- A text in double quotes. -/
def quoted (text : String) : String :=
  "\"" ++ String.join (text.toList.map (quoteChar '"')) ++ "\""

/-- A character in single quotes. -/
def quotedChar (c : Char) : String :=
  "'" ++ quoteChar '\'' c ++ "'"

end CrossAsm.Text

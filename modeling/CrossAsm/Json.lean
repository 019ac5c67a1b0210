import CrossAsm.Text.Hex

/-! JSON text, indented by two spaces. -/

namespace CrossAsm

/-- A JSON value; the fields of an object keep their order. -/
inductive Json where
  | null
  | number (n : Nat)
  | string (content : String)
  | array (items : List Json)
  | object (fields : List (String × Json))

namespace Json

/-- One character inside a JSON string. -/
def escapeChar (c : Char) : String :=
  match c with
  | '"' => "\\\""
  | '\\' => "\\\\"
  | '\n' => "\\n"
  | '\r' => "\\r"
  | '\t' => "\\t"
  | '\x08' => "\\b"
  | '\x0c' => "\\f"
  | c =>
    if c.toNat < 0x20 then
      "\\u" ++ String.ofList ((Text.hex 4 c.toNat).toList.map Char.toLower)
    else
      String.singleton c

/-- A JSON string. -/
def quote (content : String) : String :=
  "\"" ++ String.join (content.toList.map escapeChar) ++ "\""

/-- The start of a line at a depth of nesting. -/
def newline (depth : Nat) : String :=
  "\n" ++ String.ofList (List.replicate (2 * depth) ' ')

/-- Items between brackets, each on a line of its own. -/
def bracketed (left right : String) (depth : Nat) (items : List String) : String :=
  if items.isEmpty then left ++ right
  else
    left ++ newline (depth + 1) ++ ("," ++ newline (depth + 1)).intercalate items ++
      newline depth ++ right

mutual

/-- The text of a value at a depth of nesting. -/
def pretty (depth : Nat) : Json → String
  | .null => "null"
  | .number n => toString n
  | .string content => quote content
  | .array items => bracketed "[" "]" depth (prettyItems (depth + 1) [] items)
  | .object fields => bracketed "\x7b" "\x7d" depth (prettyFields (depth + 1) [] fields)

/-- The texts of the items of an array, after those that are done, the last of them first. -/
def prettyItems (depth : Nat) (done : List String) : List Json → List String
  | [] => done.reverse
  | item :: rest => prettyItems depth (pretty depth item :: done) rest

/-- The texts of the fields of an object, after those that are done, the last of them first. -/
def prettyFields (depth : Nat) (done : List String) : List (String × Json) → List String
  | [] => done.reverse
  | (key, value) :: rest =>
    prettyFields depth ((quote key ++ ": " ++ pretty depth value) :: done) rest

end

/-- The text of a value. -/
def render (value : Json) : String :=
  pretty 0 value

end Json

end CrossAsm

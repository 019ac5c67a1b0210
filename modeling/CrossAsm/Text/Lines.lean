import CrossAsm.Total

/-! Lines of a text and its length in bytes. -/

namespace CrossAsm.Text

/-- The lines of a text: each ends at a newline, which takes a carriage return before it along, and
a last line may do without. -/
def lines : List Char → List (List Char)
  | [] => []
  | '\n' :: rest => [] :: lines rest
  | '\r' :: '\n' :: rest => [] :: lines rest
  | c :: rest =>
    match lines rest with
    | [] => [[c]]
    | line :: others => (c :: line) :: others

/-- The number of bytes a text takes in UTF-8. -/
def byteLength (text : List Char) : Nat :=
  total (text.map Char.utf8Size)

end CrossAsm.Text

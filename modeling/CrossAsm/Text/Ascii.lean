/-! Letter case over ASCII: the only case rule the language has. -/

namespace CrossAsm.Text

/-- The text with `A` to `Z` lowered and every other character kept. -/
def lower (text : String) : String :=
  String.ofList (text.toList.map Char.toLower)

end CrossAsm.Text

/-! Terminal colours, as the escape sequences that switch them. -/

namespace CrossAsm.Text

/-- A foreground colour of a terminal. -/
inductive Colour where
  | red | green | yellow | blue | magenta | cyan

namespace Colour

/-- The escape sequence with the given parameter. -/
def escape (parameter : String) : String :=
  "\x1b[" ++ parameter ++ "m"

/-- The sequence that switches to the colour. -/
def on : Colour → String
  | .red => escape "31"
  | .green => escape "32"
  | .yellow => escape "33"
  | .blue => escape "34"
  | .magenta => escape "35"
  | .cyan => escape "36"

/-- The sequence that switches back to the default colour. -/
def off : String :=
  escape "39"

/-- The text in the colour. -/
def paint (colour : Colour) (text : String) : String :=
  colour.on ++ text ++ off

end Colour

end CrossAsm.Text

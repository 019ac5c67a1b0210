/-! Operands as they are written, before an addressing mode is chosen. -/

namespace CrossAsm

/-- The written form of an operand over a payload. -/
inductive Operand (α : Type) where
  | none
  | accumulator
  | immediate (value : α)
  | address (value : α)
  | indexedX (value : α)
  | indexedY (value : α)
  | indirect (value : α)
  | indexedIndirect (value : α)
  | indirectIndexed (value : α)
  deriving DecidableEq

/-- An operand with its payload erased: all that mode selection looks at. -/
abbrev Shape : Type := Operand Unit

namespace Operand

variable {α β : Type}

/-- The payload, when the form carries one. -/
def value? : Operand α → Option α
  | .none | .accumulator => Option.none
  | .immediate v | .address v | .indexedX v | .indexedY v | .indirect v | .indexedIndirect v
  | .indirectIndexed v => some v

/-- Applies a function to the payload and keeps the form. -/
def map (f : α → β) : Operand α → Operand β
  | .none => .none
  | .accumulator => .accumulator
  | .immediate v => .immediate (f v)
  | .address v => .address (f v)
  | .indexedX v => .indexedX (f v)
  | .indexedY v => .indexedY (f v)
  | .indirect v => .indirect (f v)
  | .indexedIndirect v => .indexedIndirect (f v)
  | .indirectIndexed v => .indirectIndexed (f v)

/-- Applies an effectful function to the payload and keeps the form. -/
def mapM {m : Type → Type} [Monad m] (f : α → m β) : Operand α → m (Operand β)
  | .none => pure .none
  | .accumulator => pure .accumulator
  | .immediate v => return .immediate (← f v)
  | .address v => return .address (← f v)
  | .indexedX v => return .indexedX (← f v)
  | .indexedY v => return .indexedY (← f v)
  | .indirect v => return .indirect (← f v)
  | .indexedIndirect v => return .indexedIndirect (← f v)
  | .indirectIndexed v => return .indirectIndexed (← f v)

/-- The operand's form alone. -/
def shape (operand : Operand α) : Shape :=
  operand.map fun _ => ()

/-- The operand in assembly form, given the text of its payload. -/
def render : Operand String → String
  | .none => ""
  | .accumulator => "a"
  | .immediate v => "#" ++ v
  | .address v => v
  | .indexedX v => v ++ ",x"
  | .indexedY v => v ++ ",y"
  | .indirect v => "(" ++ v ++ ")"
  | .indexedIndirect v => "(" ++ v ++ ",x)"
  | .indirectIndexed v => "(" ++ v ++ "),y"

end Operand

end CrossAsm

/-! Addressing modes of the 6502 family. -/

namespace CrossAsm

/-- How an instruction finds its operand. -/
inductive Mode where
  | implied | accumulator | immediate
  | zeroPage | zeroPageX | zeroPageY
  | absolute | absoluteX | absoluteY
  | indirect | indexedIndirect | indirectIndexed | zeroPageIndirect
  | relative
  deriving DecidableEq

namespace Mode

/-- Every addressing mode, in declaration order. -/
def all : List Mode :=
  [.implied, .accumulator, .immediate, .zeroPage, .zeroPageX, .zeroPageY, .absolute, .absoluteX,
   .absoluteY, .indirect, .indexedIndirect, .indirectIndexed, .zeroPageIndirect, .relative]

/-- The mode's name in messages. -/
def name : Mode → String
  | .implied => "Implied"
  | .accumulator => "Accumulator"
  | .immediate => "Immediate"
  | .zeroPage => "ZeroPage"
  | .zeroPageX => "ZeroPageX"
  | .zeroPageY => "ZeroPageY"
  | .absolute => "Absolute"
  | .absoluteX => "AbsoluteX"
  | .absoluteY => "AbsoluteY"
  | .indirect => "Indirect"
  | .indexedIndirect => "IndexedIndirect"
  | .indirectIndexed => "IndirectIndexed"
  | .zeroPageIndirect => "ZeroPageIndirect"
  | .relative => "Relative"

/-- Encoded length in bytes, the opcode included. -/
def length : Mode → Nat
  | .implied | .accumulator => 1
  | .immediate | .zeroPage | .zeroPageX | .zeroPageY | .indexedIndirect | .indirectIndexed
  | .zeroPageIndirect | .relative => 2
  | .absolute | .absoluteX | .absoluteY | .indirect => 3

end Mode

end CrossAsm

import CrossAsm.Text.Colour
import CrossAsm.Text.Hex
import CrossAsm.Isa.Cpu

/-! Instructions read back from bytes, and their assembly text. -/

namespace CrossAsm

/-- One instruction read back from its bytes, a branch with its absolute target. -/
structure Decoded where
  /-- The mnemonic. -/
  op : Op
  /-- The addressing mode. -/
  mode : Mode
  /-- The operand value, for an instruction longer than its opcode. -/
  value : Option UInt16
  deriving DecidableEq

namespace Decoded

/-- The operand value that follows an opcode at `pc`, when enough bytes are left. -/
def operandValue (mode : Mode) (rest : List UInt8) (pc : UInt16) : Option UInt16 :=
  match mode.length, rest with
  | 2, byte :: _ =>
    if mode = .relative then some (pc + 2 + (if byte < 0x80 then byte.toUInt16
      else byte.toUInt16 + 0xFF00))
    else some byte.toUInt16
  | 3, low :: high :: _ => some (low.toUInt16 + high.toUInt16 * 256)
  | _, _ => none

/-- Reads the instruction at the head of a byte list. -/
def decode (cpu : Cpu) (bytes : List UInt8) (pc : UInt16) : Option Decoded :=
  match bytes with
  | [] => none
  | byte :: rest => do
    let (op, mode) ← cpu.decode byte
    if mode.length = 1 then
      return ⟨op, mode, none⟩
    let value ← operandValue mode rest pc
    return ⟨op, mode, some value⟩

/-- The instruction's length in bytes. -/
def length (inst : Decoded) : Nat :=
  inst.mode.length

/-- The operand in assembly form with hexadecimal numbers. -/
def operandText (inst : Decoded) : String :=
  let v := (inst.value.getD 0).toNat
  let short := "$" ++ Text.hex 2 v
  let long := "$" ++ Text.hex 4 v
  match inst.mode with
  | .implied => ""
  | .accumulator => "a"
  | .immediate => "#" ++ short
  | .zeroPage => short
  | .zeroPageX => short ++ ",x"
  | .zeroPageY => short ++ ",y"
  | .absolute | .relative => long
  | .absoluteX => long ++ ",x"
  | .absoluteY => long ++ ",y"
  | .indirect => "(" ++ long ++ ")"
  | .indexedIndirect => "(" ++ short ++ ",x)"
  | .indirectIndexed => "(" ++ short ++ "),y"
  | .zeroPageIndirect => "(" ++ short ++ ")"

/-- The instruction in assembly form. -/
def render (inst : Decoded) : String :=
  match inst.operandText with
  | "" => inst.op.name
  | operand => inst.op.name ++ " " ++ operand

/-- The instruction in two coloured columns, the mnemonic four wide. -/
def renderColoured (inst : Decoded) : String :=
  Text.Colour.red.on ++ inst.op.name ++ " " ++ Text.Colour.yellow.on ++ inst.operandText ++
    Text.Colour.off

end Decoded

end CrossAsm

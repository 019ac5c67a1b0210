import CrossAsm.Isa.Opcode
import CrossAsm.Isa.Operand

/-! The two processors: their opcode tables read in both directions, and mode selection. -/

namespace CrossAsm

/-- A target processor. -/
inductive Cpu where
  | nmos | cmos
  deriving DecidableEq

namespace Cpu

/-- The processor's name in messages and on the command line. -/
def name : Cpu → String
  | .nmos => "6502"
  | .cmos => "65c02"

/-- The processor's opcode table. -/
def table : Cpu → List Opcode
  | .nmos => Opcode.nmos
  | .cmos => Opcode.cmos

/-- The opcode byte of a mnemonic in a mode, when the processor has one. -/
def opcode (cpu : Cpu) (op : Op) (mode : Mode) : Option UInt8 :=
  (cpu.table.find? fun row => row.op = op ∧ row.mode = mode).map (·.byte)

/-- The mnemonic and mode an opcode byte stands for, when it stands for any. -/
def decode (cpu : Cpu) (byte : UInt8) : Option (Op × Mode) :=
  (cpu.table.find? fun row => row.byte = byte).map fun row => (row.op, row.mode)

/-- Whether the processor has the mnemonic in some mode. -/
def supports (cpu : Cpu) (op : Op) : Bool :=
  Mode.all.any fun mode => (cpu.opcode op mode).isSome

/-- Reads a mnemonic of this processor. -/
def op? (cpu : Cpu) (word : String) : Option Op :=
  (Op.parse? word).filter cpu.supports

/-- The first of the given modes in which the processor has the mnemonic. -/
def firstMode (cpu : Cpu) (op : Op) (modes : List Mode) : Option Mode :=
  modes.find? fun mode => (cpu.opcode op mode).isSome

/-- The modes an operand form may be encoded in, the preferred one first. -/
def candidates (op : Op) (shape : Shape) (zeroPage : Bool) : List Mode :=
  -- An operand known to lie in the zero page prefers the short form, any other the long form.
  let either (short long : Mode) : List Mode := if zeroPage then [short, long] else [long, short]
  match shape with
  | .none => [.implied, .accumulator]
  | .accumulator => [.accumulator]
  | .immediate _ => [.immediate]
  | .address _ => if op.isBranch then [.relative] else either .zeroPage .absolute
  | .indexedX _ => either .zeroPageX .absoluteX
  | .indexedY _ => either .zeroPageY .absoluteY
  | .indirect _ => [.indirect, .zeroPageIndirect]
  | .indexedIndirect _ => [.indexedIndirect]
  | .indirectIndexed _ => [.indirectIndexed]

/-- Picks the addressing mode of a mnemonic for an operand form. -/
def select (cpu : Cpu) (op : Op) (shape : Shape) (zeroPage : Bool) : Option Mode :=
  cpu.firstMode op (candidates op shape zeroPage)

/-- The return instruction of a routine. -/
def returnOp (interrupt : Bool) : Op :=
  if interrupt then .rti else .rts

end Cpu

end CrossAsm

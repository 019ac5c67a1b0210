import CrossAsm.Isa.Op
import CrossAsm.Isa.Mode

/-! Opcode bytes of the two processors, as plain data. -/

namespace CrossAsm

/-- One row of an opcode table: the byte that stands for a mnemonic in an addressing mode. -/
structure Opcode where
  /-- The mnemonic. -/
  op : Op
  /-- The addressing mode. -/
  mode : Mode
  /-- The byte that encodes the pair. -/
  byte : UInt8
  deriving DecidableEq

namespace Opcode

/-- The documented instruction set of the NMOS processor. -/
def nmos : List Opcode :=
  [⟨.adc, .immediate, 0x69⟩, ⟨.adc, .zeroPage, 0x65⟩, ⟨.adc, .zeroPageX, 0x75⟩,
   ⟨.adc, .absolute, 0x6D⟩, ⟨.adc, .absoluteX, 0x7D⟩, ⟨.adc, .absoluteY, 0x79⟩,
   ⟨.adc, .indexedIndirect, 0x61⟩, ⟨.adc, .indirectIndexed, 0x71⟩, ⟨.and, .immediate, 0x29⟩,
   ⟨.and, .zeroPage, 0x25⟩, ⟨.and, .zeroPageX, 0x35⟩, ⟨.and, .absolute, 0x2D⟩,
   ⟨.and, .absoluteX, 0x3D⟩, ⟨.and, .absoluteY, 0x39⟩, ⟨.and, .indexedIndirect, 0x21⟩,
   ⟨.and, .indirectIndexed, 0x31⟩, ⟨.asl, .accumulator, 0x0A⟩, ⟨.asl, .zeroPage, 0x06⟩,
   ⟨.asl, .zeroPageX, 0x16⟩, ⟨.asl, .absolute, 0x0E⟩, ⟨.asl, .absoluteX, 0x1E⟩,
   ⟨.bcc, .relative, 0x90⟩, ⟨.bcs, .relative, 0xB0⟩, ⟨.beq, .relative, 0xF0⟩,
   ⟨.bmi, .relative, 0x30⟩, ⟨.bne, .relative, 0xD0⟩, ⟨.bpl, .relative, 0x10⟩,
   ⟨.bvc, .relative, 0x50⟩, ⟨.bvs, .relative, 0x70⟩, ⟨.bit, .zeroPage, 0x24⟩,
   ⟨.bit, .absolute, 0x2C⟩, ⟨.brk, .implied, 0x00⟩, ⟨.clc, .implied, 0x18⟩,
   ⟨.cld, .implied, 0xD8⟩, ⟨.cli, .implied, 0x58⟩, ⟨.clv, .implied, 0xB8⟩,
   ⟨.cmp, .immediate, 0xC9⟩, ⟨.cmp, .zeroPage, 0xC5⟩, ⟨.cmp, .zeroPageX, 0xD5⟩,
   ⟨.cmp, .absolute, 0xCD⟩, ⟨.cmp, .absoluteX, 0xDD⟩, ⟨.cmp, .absoluteY, 0xD9⟩,
   ⟨.cmp, .indexedIndirect, 0xC1⟩, ⟨.cmp, .indirectIndexed, 0xD1⟩, ⟨.cpx, .immediate, 0xE0⟩,
   ⟨.cpx, .zeroPage, 0xE4⟩, ⟨.cpx, .absolute, 0xEC⟩, ⟨.cpy, .immediate, 0xC0⟩,
   ⟨.cpy, .zeroPage, 0xC4⟩, ⟨.cpy, .absolute, 0xCC⟩, ⟨.dec, .zeroPage, 0xC6⟩,
   ⟨.dec, .zeroPageX, 0xD6⟩, ⟨.dec, .absolute, 0xCE⟩, ⟨.dec, .absoluteX, 0xDE⟩,
   ⟨.dex, .implied, 0xCA⟩, ⟨.dey, .implied, 0x88⟩, ⟨.eor, .immediate, 0x49⟩,
   ⟨.eor, .zeroPage, 0x45⟩, ⟨.eor, .zeroPageX, 0x55⟩, ⟨.eor, .absolute, 0x4D⟩,
   ⟨.eor, .absoluteX, 0x5D⟩, ⟨.eor, .absoluteY, 0x59⟩, ⟨.eor, .indexedIndirect, 0x41⟩,
   ⟨.eor, .indirectIndexed, 0x51⟩, ⟨.inc, .zeroPage, 0xE6⟩, ⟨.inc, .zeroPageX, 0xF6⟩,
   ⟨.inc, .absolute, 0xEE⟩, ⟨.inc, .absoluteX, 0xFE⟩, ⟨.inx, .implied, 0xE8⟩,
   ⟨.iny, .implied, 0xC8⟩, ⟨.jmp, .absolute, 0x4C⟩, ⟨.jmp, .indirect, 0x6C⟩,
   ⟨.jsr, .absolute, 0x20⟩, ⟨.lda, .immediate, 0xA9⟩, ⟨.lda, .zeroPage, 0xA5⟩,
   ⟨.lda, .zeroPageX, 0xB5⟩, ⟨.lda, .absolute, 0xAD⟩, ⟨.lda, .absoluteX, 0xBD⟩,
   ⟨.lda, .absoluteY, 0xB9⟩, ⟨.lda, .indexedIndirect, 0xA1⟩, ⟨.lda, .indirectIndexed, 0xB1⟩,
   ⟨.ldx, .immediate, 0xA2⟩, ⟨.ldx, .zeroPage, 0xA6⟩, ⟨.ldx, .zeroPageY, 0xB6⟩,
   ⟨.ldx, .absolute, 0xAE⟩, ⟨.ldx, .absoluteY, 0xBE⟩, ⟨.ldy, .immediate, 0xA0⟩,
   ⟨.ldy, .zeroPage, 0xA4⟩, ⟨.ldy, .zeroPageX, 0xB4⟩, ⟨.ldy, .absolute, 0xAC⟩,
   ⟨.ldy, .absoluteX, 0xBC⟩, ⟨.lsr, .accumulator, 0x4A⟩, ⟨.lsr, .zeroPage, 0x46⟩,
   ⟨.lsr, .zeroPageX, 0x56⟩, ⟨.lsr, .absolute, 0x4E⟩, ⟨.lsr, .absoluteX, 0x5E⟩,
   ⟨.nop, .implied, 0xEA⟩, ⟨.ora, .immediate, 0x09⟩, ⟨.ora, .zeroPage, 0x05⟩,
   ⟨.ora, .zeroPageX, 0x15⟩, ⟨.ora, .absolute, 0x0D⟩, ⟨.ora, .absoluteX, 0x1D⟩,
   ⟨.ora, .absoluteY, 0x19⟩, ⟨.ora, .indexedIndirect, 0x01⟩, ⟨.ora, .indirectIndexed, 0x11⟩,
   ⟨.pha, .implied, 0x48⟩, ⟨.php, .implied, 0x08⟩, ⟨.pla, .implied, 0x68⟩,
   ⟨.plp, .implied, 0x28⟩, ⟨.rol, .accumulator, 0x2A⟩, ⟨.rol, .zeroPage, 0x26⟩,
   ⟨.rol, .zeroPageX, 0x36⟩, ⟨.rol, .absolute, 0x2E⟩, ⟨.rol, .absoluteX, 0x3E⟩,
   ⟨.ror, .accumulator, 0x6A⟩, ⟨.ror, .zeroPage, 0x66⟩, ⟨.ror, .zeroPageX, 0x76⟩,
   ⟨.ror, .absolute, 0x6E⟩, ⟨.ror, .absoluteX, 0x7E⟩, ⟨.rti, .implied, 0x40⟩,
   ⟨.rts, .implied, 0x60⟩, ⟨.sbc, .immediate, 0xE9⟩, ⟨.sbc, .zeroPage, 0xE5⟩,
   ⟨.sbc, .zeroPageX, 0xF5⟩, ⟨.sbc, .absolute, 0xED⟩, ⟨.sbc, .absoluteX, 0xFD⟩,
   ⟨.sbc, .absoluteY, 0xF9⟩, ⟨.sbc, .indexedIndirect, 0xE1⟩, ⟨.sbc, .indirectIndexed, 0xF1⟩,
   ⟨.sec, .implied, 0x38⟩, ⟨.sed, .implied, 0xF8⟩, ⟨.sei, .implied, 0x78⟩,
   ⟨.sta, .zeroPage, 0x85⟩, ⟨.sta, .zeroPageX, 0x95⟩, ⟨.sta, .absolute, 0x8D⟩,
   ⟨.sta, .absoluteX, 0x9D⟩, ⟨.sta, .absoluteY, 0x99⟩, ⟨.sta, .indexedIndirect, 0x81⟩,
   ⟨.sta, .indirectIndexed, 0x91⟩, ⟨.stx, .zeroPage, 0x86⟩, ⟨.stx, .zeroPageY, 0x96⟩,
   ⟨.stx, .absolute, 0x8E⟩, ⟨.sty, .zeroPage, 0x84⟩, ⟨.sty, .zeroPageX, 0x94⟩,
   ⟨.sty, .absolute, 0x8C⟩, ⟨.tax, .implied, 0xAA⟩, ⟨.tay, .implied, 0xA8⟩,
   ⟨.tsx, .implied, 0xBA⟩, ⟨.txa, .implied, 0x8A⟩, ⟨.txs, .implied, 0x9A⟩,
   ⟨.tya, .implied, 0x98⟩]

/-- What the CMOS processor adds to the NMOS instruction set. -/
def cmosOnly : List Opcode :=
  [⟨.bra, .relative, 0x80⟩, ⟨.phx, .implied, 0xDA⟩, ⟨.phy, .implied, 0x5A⟩,
   ⟨.plx, .implied, 0xFA⟩, ⟨.ply, .implied, 0x7A⟩, ⟨.stz, .zeroPage, 0x64⟩,
   ⟨.stz, .zeroPageX, 0x74⟩, ⟨.stz, .absolute, 0x9C⟩, ⟨.stz, .absoluteX, 0x9E⟩,
   ⟨.trb, .zeroPage, 0x14⟩, ⟨.trb, .absolute, 0x1C⟩, ⟨.tsb, .zeroPage, 0x04⟩,
   ⟨.tsb, .absolute, 0x0C⟩, ⟨.inc, .accumulator, 0x1A⟩, ⟨.dec, .accumulator, 0x3A⟩,
   ⟨.bit, .immediate, 0x89⟩, ⟨.bit, .zeroPageX, 0x34⟩, ⟨.bit, .absoluteX, 0x3C⟩,
   ⟨.ora, .zeroPageIndirect, 0x12⟩, ⟨.and, .zeroPageIndirect, 0x32⟩,
   ⟨.eor, .zeroPageIndirect, 0x52⟩, ⟨.adc, .zeroPageIndirect, 0x72⟩,
   ⟨.sta, .zeroPageIndirect, 0x92⟩, ⟨.lda, .zeroPageIndirect, 0xB2⟩,
   ⟨.cmp, .zeroPageIndirect, 0xD2⟩, ⟨.sbc, .zeroPageIndirect, 0xF2⟩]

/-- The instruction set of the CMOS processor, a superset of the NMOS one. -/
def cmos : List Opcode :=
  nmos ++ cmosOnly

end Opcode

end CrossAsm

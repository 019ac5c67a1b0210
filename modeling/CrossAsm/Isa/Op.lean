import CrossAsm.Text.Ascii

/-! Mnemonics of the 6502 family, and how a written word is read as one. -/

namespace CrossAsm

/-- A mnemonic of the family; the last eight exist on the CMOS part only. -/
inductive Op where
  | adc | and | asl | bcc | bcs | beq | bit | bmi | bne | bpl | brk | bvc | bvs | clc | cld
  | cli | clv | cmp | cpx | cpy | dec | dex | dey | eor | inc | inx | iny | jmp | jsr | lda
  | ldx | ldy | lsr | nop | ora | pha | php | pla | plp | rol | ror | rti | rts | sbc | sec
  | sed | sei | sta | stx | sty | tax | tay | tsx | txa | txs | tya | bra | phx | phy | plx
  | ply | stz | trb | tsb
  deriving DecidableEq

namespace Op

/-- Every mnemonic, in declaration order. -/
def all : List Op :=
  [.adc, .and, .asl, .bcc, .bcs, .beq, .bit, .bmi, .bne, .bpl, .brk, .bvc, .bvs, .clc, .cld,
   .cli, .clv, .cmp, .cpx, .cpy, .dec, .dex, .dey, .eor, .inc, .inx, .iny, .jmp, .jsr, .lda,
   .ldx, .ldy, .lsr, .nop, .ora, .pha, .php, .pla, .plp, .rol, .ror, .rti, .rts, .sbc, .sec,
   .sed, .sei, .sta, .stx, .sty, .tax, .tay, .tsx, .txa, .txs, .tya, .bra, .phx, .phy, .plx,
   .ply, .stz, .trb, .tsb]

/-- The mnemonic as it is written, in lower case. -/
def name : Op → String
  | .adc => "adc" | .and => "and" | .asl => "asl" | .bcc => "bcc" | .bcs => "bcs"
  | .beq => "beq" | .bit => "bit" | .bmi => "bmi" | .bne => "bne" | .bpl => "bpl"
  | .brk => "brk" | .bvc => "bvc" | .bvs => "bvs" | .clc => "clc" | .cld => "cld"
  | .cli => "cli" | .clv => "clv" | .cmp => "cmp" | .cpx => "cpx" | .cpy => "cpy"
  | .dec => "dec" | .dex => "dex" | .dey => "dey" | .eor => "eor" | .inc => "inc"
  | .inx => "inx" | .iny => "iny" | .jmp => "jmp" | .jsr => "jsr" | .lda => "lda"
  | .ldx => "ldx" | .ldy => "ldy" | .lsr => "lsr" | .nop => "nop" | .ora => "ora"
  | .pha => "pha" | .php => "php" | .pla => "pla" | .plp => "plp" | .rol => "rol"
  | .ror => "ror" | .rti => "rti" | .rts => "rts" | .sbc => "sbc" | .sec => "sec"
  | .sed => "sed" | .sei => "sei" | .sta => "sta" | .stx => "stx" | .sty => "sty"
  | .tax => "tax" | .tay => "tay" | .tsx => "tsx" | .txa => "txa" | .txs => "txs"
  | .tya => "tya" | .bra => "bra" | .phx => "phx" | .phy => "phy" | .plx => "plx"
  | .ply => "ply" | .stz => "stz" | .trb => "trb" | .tsb => "tsb"

/-- Reads a mnemonic in any mix of letter cases. -/
def parse? (word : String) : Option Op :=
  all.find? fun op => op.name == Text.lower word

/-- The mnemonics whose operand is a branch target. -/
def isBranch : Op → Bool
  | .bcc | .bcs | .beq | .bmi | .bne | .bpl | .bvc | .bvs | .bra => true
  | _ => false

end Op

end CrossAsm

import CrossAsm.Text.Hex
import CrossAsm.Isa.Cpu

/-! Instructions as bytes: the encoder and its refusals. -/

namespace CrossAsm

/-- Why an instruction cannot be encoded. -/
inductive EncodeError where
  | invalidMode (op : Op) (mode : Mode)
  | missingOperand (op : Op) (mode : Mode)
  | branchOutOfRange (pc : UInt16) (target : Int64)
  | valueOutOfRange (mode : Mode) (value : Int64)
  deriving DecidableEq

/-- The text of an encoding error. -/
def EncodeError.message : EncodeError → String
  | .invalidMode op mode => s!"{op.name} does not support {mode.name} addressing"
  | .missingOperand op mode => s!"{op.name} in {mode.name} addressing needs an operand"
  | .branchOutOfRange pc target =>
    "branch from 0x" ++ Text.hex 4 pc.toNat ++ " to 0x" ++ Text.hexInt64 4 target ++
      " is out of range, use a far test"
  | .valueOutOfRange mode value => s!"value {value.toInt} does not fit a {mode.name} operand"

/-- The low byte of a signed value. -/
def lowByte (value : Int) : UInt8 :=
  UInt8.ofNat (value % 256).toNat

/-- The bytes that follow the opcode of an instruction located at `pc`. -/
def operandBytes (mode : Mode) (value : Int64) (pc : UInt16) : Except EncodeError (List UInt8) :=
  let n := value.toInt
  match mode with
  | .relative =>
    -- A branch counts from the instruction after it.
    let offset := n - (pc.toNat + 2)
    if -128 ≤ offset ∧ offset ≤ 127 then .ok [lowByte offset]
    else .error (.branchOutOfRange pc value)
  | .immediate =>
    if -128 ≤ n ∧ n ≤ 255 then .ok [lowByte n] else .error (.valueOutOfRange mode value)
  | mode =>
    if mode.length = 2 then
      if 0 ≤ n ∧ n ≤ 0xFF then .ok [lowByte n] else .error (.valueOutOfRange mode value)
    else
      if 0 ≤ n ∧ n ≤ 0xFFFF then .ok [lowByte n, lowByte (n / 256)]
      else .error (.valueOutOfRange mode value)

/-- Encodes one instruction located at `pc`. -/
def Cpu.encode (cpu : Cpu) (op : Op) (mode : Mode) (value : Option Int64) (pc : UInt16) :
    Except EncodeError (List UInt8) :=
  match cpu.opcode op mode with
  | none => .error (.invalidMode op mode)
  | some opcode =>
    if mode.length = 1 then .ok [opcode]
    else match value with
      | none => .error (.missingOperand op mode)
      | some value => (operandBytes mode value pc).map (opcode :: ·)

end CrossAsm

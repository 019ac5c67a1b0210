import CrossAsm.Padding
import CrossAsm.Text.Quoted

/-! Memory directives. -/

namespace CrossAsm

/-- The interrupt vectors a directive can set. -/
inductive VectorKind where
  | start | nmi | irq
  deriving DecidableEq

namespace VectorKind

/-- The vector's name. -/
def name : VectorKind → String
  | .start => "start"
  | .nmi => "nmi"
  | .irq => "irq"

/-- Reads a vector's name in exactly its own letters. -/
def parse? : String → Option VectorKind
  | "start" => some .start
  | "nmi" => some .nmi
  | "irq" => some .irq
  | _ => none

end VectorKind

/-- An instruction to layout. -/
inductive Directive where
  /-- Opens a region of the current bank. -/
  | romOrg (address : Nat) (maxsize : Option Nat)
  /-- Closes the open region. -/
  | romEnd
  /-- Makes a bank the current one. -/
  | romBank (number : Nat) (maxsize : Option Nat)
  /-- Sets the size of the banks. -/
  | romBanksize (size : Nat)
  /-- Opens a window for variables. -/
  | ramOrg (address : Nat) (maxsize : Option Nat)
  /-- Closes the window for variables. -/
  | ramEnd
  /-- Sets the fill pattern. -/
  | setPad (padding : Padding)
  /-- Moves on to a multiple. -/
  | align (multiple : Nat)
  /-- Includes the bytes of a file. -/
  | incbin (name : String) (bytes : List UInt8)
  /-- Names the routine of an interrupt vector. -/
  | vector (kind : VectorKind) (name : String)
  deriving DecidableEq

namespace Directive

/-- An optional size after a comma. -/
def renderSize : Option Nat → String
  | some size => ", 0x" ++ Text.hex 1 size
  | none => ""

/-- The directive as it is shown. -/
def render : Directive → String
  | .romOrg address maxsize => "#rom.org 0x" ++ Text.hex 4 address ++ renderSize maxsize
  | .romEnd => "#rom.end"
  | .romBank number maxsize => s!"#rom.bank {number}" ++ renderSize maxsize
  | .romBanksize size => "#rom.banksize 0x" ++ Text.hex 1 size
  | .ramOrg address maxsize => "#ram.org 0x" ++ Text.hex 4 address ++ renderSize maxsize
  | .ramEnd => "#ram.end"
  | .setPad padding => "#setpad 0x" ++ padding.render
  | .align multiple => s!"#align {multiple}"
  | .incbin name bytes => s!"#incbin {Text.quoted name} ({bytes.length} bytes)"
  | .vector kind name => s!"#interrupt.{kind.name} {name}"

end Directive

end CrossAsm

import CrossAsm.Text.Ascii
import CrossAsm.Isa.Op

/-! Registers that a `switch` can select on. -/

namespace CrossAsm

/-- A register with a compare instruction. -/
inductive Register where
  | a | x | y
  deriving DecidableEq

namespace Register

/-- The register's letter. -/
def name : Register → String
  | .a => "a"
  | .x => "x"
  | .y => "y"

/-- The part of a written register name after an optional `reg.` or `REG.`. -/
def bareName (word : String) : String :=
  match word.toList with
  | 'r' :: 'e' :: 'g' :: '.' :: rest | 'R' :: 'E' :: 'G' :: '.' :: rest => String.ofList rest
  | _ => word

/-- Reads a register, bare or qualified, its letter in either case. -/
def parse? (word : String) : Option Register :=
  match Text.lower (bareName word) with
  | "a" => some .a
  | "x" => some .x
  | "y" => some .y
  | _ => none

/-- What is said of a word that names no register. -/
def unknownMessage (word : String) : String :=
  "Unknown reg name: " ++ word

/-- The instruction that compares the register with an operand. -/
def compare : Register → Op
  | .a => .cmp
  | .x => .cpx
  | .y => .cpy

end Register

end CrossAsm
